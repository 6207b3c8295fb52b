import Mathlib.Logic.Nonempty
import Mathlib.Tactic.ByContra
import Resolution.Proofs.Resolvents

/-!
# Interpretations of clauses

A clause is read as universally closed: it is true in an interpretation when under every assignment
of its variables some literal of it holds. Applying a unifier only changes the assignment, so every
clause true in an interpretation stays true under a unifier, and a resolvent is true wherever its
parents are. It does not matter that clauses share their variables.

The clauses that are true in all interpretations are the tautologies. Any other clause is false over
the terms themselves when exactly the atoms that it negates are true.
-/

namespace Resolution

universe u

/-- Constants are elements; a predicate name is one relation on argument lists of every length. -/
structure Interpretation (D : Type u) where
  constant : String → D
  relation : String → List D → Prop

namespace Interpretation

variable {D : Type u} (I : Interpretation D) (ρ : String → D)

def value : Term → D
  | .var x => ρ x
  | .const a => I.constant a

def HoldsAtom (l : Literal) : Prop := I.relation l.name (l.args.map (I.value ρ))

def HoldsLiteral (l : Literal) : Prop := if l.negated then ¬I.HoldsAtom ρ l else I.HoldsAtom ρ l

def HoldsClause (c : Clause) : Prop := ∃ l ∈ c.literals, I.HoldsLiteral ρ l

/-- The clause holds under every assignment. -/
def Models (c : Clause) : Prop := ∀ ρ, I.HoldsClause ρ c

theorem holdsLiteral_negate (l : Literal) : I.HoldsLiteral ρ l.negate ↔ ¬I.HoldsLiteral ρ l := by
  have hatom : I.HoldsAtom ρ l.negate ↔ I.HoldsAtom ρ l := Iff.rfl
  cases h : l.negated <;> simp [HoldsLiteral, hatom, h] <;> simp [Literal.negate, h]

/-- The assignment that reads every variable as its term under the unifier. -/
def pullBack (u : Unifier) : String → D := fun x => I.value ρ (u.apply (.var x))

theorem value_apply (u : Unifier) (t : Term) :
    I.value ρ (u.apply t) = I.value (I.pullBack ρ u) t := by
  cases t with
  | var x => rfl
  | const a => rw [Unifier.apply_const]; rfl

theorem holdsLiteral_applyLiteral (u : Unifier) (l : Literal) :
    I.HoldsLiteral ρ (u.applyLiteral l) ↔ I.HoldsLiteral (I.pullBack ρ u) l := by
  have hargs : (u.applyLiteral l).args.map (I.value ρ) = l.args.map (I.value (I.pullBack ρ u)) := by
    rw [Unifier.applyLiteral, List.map_map]
    exact List.map_congr_left fun t _ => I.value_apply ρ u t
  have hatom : I.HoldsAtom ρ (u.applyLiteral l) ↔ I.HoldsAtom (I.pullBack ρ u) l := by
    rw [HoldsAtom, hargs]
    rfl
  have hsign : (u.applyLiteral l).negated = l.negated := rfl
  rw [HoldsLiteral, HoldsLiteral, hsign, hatom]

theorem holdsClause_applyClause (u : Unifier) (c : Clause) :
    I.HoldsClause ρ (u.applyClause c) ↔ I.HoldsClause (I.pullBack ρ u) c := by
  constructor
  · rintro ⟨k, hk, hkρ⟩
    obtain ⟨l, hl, rfl⟩ := List.mem_map.1 hk
    exact ⟨l, hl, (I.holdsLiteral_applyLiteral ρ u l).1 hkρ⟩
  · rintro ⟨l, hl, hlρ⟩
    exact ⟨u.applyLiteral l, List.mem_map_of_mem hl, (I.holdsLiteral_applyLiteral ρ u l).2 hlρ⟩

variable {I}

theorem Models.applyClause {c : Clause} (h : I.Models c) (u : Unifier) :
    I.Models (u.applyClause c) := by
  intro ρ
  rw [holdsClause_applyClause]
  exact h _

/-- A resolvent is true wherever its two clauses are: if the literal resolved on in the first holds,
its complement in the second fails. -/
theorem Models.resolvent {c d : Clause} (hc : I.Models c) (hd : I.Models d) {r : Resolvent}
    (hr : r ∈ c.resolve d) : I.Models r.clause := by
  intro ρ
  obtain ⟨k, hk, hkρ⟩ := hc.applyClause r.unifier ρ
  by_cases hleft : k = r.unifier.applyLiteral r.left
  · obtain ⟨m, hm, hmρ⟩ := hd.applyClause r.unifier ρ
    have hright : m ≠ r.unifier.applyLiteral r.right := by
      rintro rfl
      rw [hleft, Resolvent.complementary hr, holdsLiteral_negate] at hkρ
      exact hkρ hmρ
    exact ⟨m, (Resolvent.mem_literals_iff hr).2 (.inr ⟨hm, hright⟩), hmρ⟩
  · exact ⟨k, (Resolvent.mem_literals_iff hr).2 (.inl ⟨hk, hleft⟩), hkρ⟩

theorem not_models_of_isEmpty [Nonempty D] {c : Clause} (h : c.isEmpty = true) : ¬I.Models c := by
  intro hc
  obtain ⟨l, hl, -⟩ := hc fun _ => Classical.arbitrary D
  rw [List.isEmpty_iff.1 h] at hl
  exact List.not_mem_nil hl

end Interpretation

namespace Clause

/-- The clause is true in every interpretation over a non-empty domain. -/
def Valid (c : Clause) : Prop :=
  ∀ (D : Type u) [Nonempty D] (I : Interpretation D), I.Models c

/-- The domain is the terms, every constant stands for itself, and the atoms that the clause negates
are true. -/
def refuting (c : Clause) : Interpretation (ULift.{u} Term) where
  constant a := ⟨.const a⟩
  relation name args := ∃ l ∈ c.literals, l.negated = true ∧ l.name = name ∧ l.args.map .up = args

/-- With every variable assigned to itself, every term stands for itself. -/
theorem value_refuting (c : Clause) (t : Term) :
    c.refuting.value (fun x => ULift.up.{u} (.var x)) t = ⟨t⟩ := by
  cases t <;> rfl

theorem holdsAtom_refuting {c : Clause} {l : Literal} :
    c.refuting.HoldsAtom (fun x => ULift.up.{u} (.var x)) l ↔
      ∃ m ∈ c.literals, m.negated = true ∧ m.name = l.name ∧ m.args = l.args := by
  have hargs : l.args.map (c.refuting.value fun x => ULift.up.{u} (.var x)) = l.args.map .up :=
    List.map_congr_left fun t _ => c.value_refuting t
  have hinj : ∀ ts ts' : List Term, ts.map ULift.up.{u} = ts'.map .up ↔ ts = ts' :=
    fun ts ts' => List.map_inj_right fun _ _ => ULift.up.inj
  rw [Interpretation.HoldsAtom, hargs]
  simp only [refuting, hinj]

/-- A clause without a literal next to its negation is false over the terms. -/
theorem not_holdsClause_refuting {c : Clause} (h : ¬c.isTautology = true) :
    ¬c.refuting.HoldsClause (fun x => ULift.up.{u} (.var x)) c := by
  rintro ⟨l, hl, hholds⟩
  cases hsign : l.negated with
  | true =>
      rw [Interpretation.HoldsLiteral, if_pos hsign] at hholds
      exact hholds (holdsAtom_refuting.2 ⟨l, hl, hsign, rfl, rfl⟩)
  | false =>
      rw [Interpretation.HoldsLiteral, hsign, if_neg Bool.false_ne_true] at hholds
      obtain ⟨m, hm, hnegated, hname, hargs⟩ := holdsAtom_refuting.1 hholds
      have hnegate : m = l.negate := by
        cases m
        simp_all [Literal.negate]
      exact h (isTautology_iff.2 ⟨l, hl, hnegate ▸ hm⟩)

theorem valid_of_isTautology {c : Clause} (h : c.isTautology = true) : Valid.{u} c := by
  intro D _ I ρ
  obtain ⟨l, hl, hnegate⟩ := isTautology_iff.1 h
  by_cases hholds : I.HoldsLiteral ρ l
  · exact ⟨l, hl, hholds⟩
  · exact ⟨l.negate, hnegate, (I.holdsLiteral_negate ρ l).2 hholds⟩

end Clause

/-- The test for tautologies recognizes exactly the clauses that are true under every assignment in
every interpretation. -/
theorem isTautology_iff_valid (c : Clause) : c.isTautology = true ↔ c.Valid.{u} := by
  refine ⟨Clause.valid_of_isTautology, fun h => ?_⟩
  by_contra hnot
  have : Nonempty (ULift.{u} Term) := ⟨⟨.const ""⟩⟩
  exact Clause.not_holdsClause_refuting hnot (h (ULift.{u} Term) c.refuting _)

/-- Every interpretation over a non-empty domain makes some clause false under some assignment. -/
def Unsatisfiable (cs : List Clause) : Prop :=
  ∀ (D : Type u) [Nonempty D] (I : Interpretation D), ∃ c ∈ cs, ∃ ρ, ¬I.HoldsClause ρ c

theorem unsatisfiable_of_forall_not_models {cs : List Clause}
    (h : ∀ (D : Type u) [Nonempty D] (I : Interpretation D), ¬∀ c ∈ cs, I.Models c) :
    Unsatisfiable.{u} cs := by
  intro D _ I
  by_contra hcon
  refine h D I fun c hc ρ => ?_
  by_contra hρ
  exact hcon ⟨c, hc, ρ, hρ⟩

end Resolution
