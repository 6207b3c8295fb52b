import Mathlib.Logic.Function.Basic
import Resolution.Proofs.Outcomes
import Resolution.Proofs.Reading
import Resolution.Proofs.Verdict

/-!
# The search decides ground clause sets

Without variables an atom is a proposition. A saturated search without the empty clause yields a
truth assignment: the atoms are decided one after another, and if neither value of the next atom
would do, then the two clauses that fail resolve to one that failed before. The filters of the
search do no harm, for a false clause is no tautology and a copy of it is as false, and two clauses
that fail under different values are different clauses, so no clause needs to be resolved with
itself.
-/

namespace Resolution

/-- The truth of a literal when atoms are propositions. -/
def Literal.eval (v : Atom → Bool) (l : Literal) : Bool := v l.atom != l.negated

def Clause.eval (v : Atom → Bool) (c : Clause) : Bool := c.literals.any (Literal.eval v)

/-- Some truth values of the atoms make every clause true. -/
def PropSatisfiable (cs : List Clause) : Prop := ∃ v : Atom → Bool, ∀ c ∈ cs, c.eval v = true

/-- The literal on an atom, negated or not. -/
def Atom.literal (a : Atom) (negated : Bool) : Literal := ⟨a.name, a.args, negated⟩

section Evaluation

variable {v : Atom → Bool}

@[simp] theorem Literal.eval_negate (l : Literal) : l.negate.eval v = !l.eval v := by
  have hatom : l.negate.atom = l.atom := rfl
  rw [eval, eval, hatom, negate]
  cases v l.atom <;> cases l.negated <;> rfl

theorem Clause.eval_eq_false_iff {c : Clause} :
    c.eval v = false ↔ ∀ l ∈ c.literals, l.eval v = false := by
  simp [eval]

theorem Literal.eval_update_of_ne {l : Literal} {a : Atom} (h : l.atom ≠ a) (b : Bool) :
    l.eval (Function.update v a b) = l.eval v := by
  rw [eval, eval, Function.update_of_ne h]

/-- A literal on the atom that fails under a value is negated exactly if the value is true. -/
theorem Literal.eq_literal_of_eval_update {l : Literal} {a : Atom} {b : Bool} (h : l.atom = a)
    (hl : l.eval (Function.update v a b) = false) : l = a.literal b := by
  subst h
  rw [eval, Function.update_self, bne_eq_false_iff_eq] at hl
  rw [Atom.literal, hl]
  rfl

/-- A settled clause that fails leads to a clause of the list that fails, with no other literals. -/
theorem Settled.exists_false {cs : List Clause} {e : Clause} (h : Settled cs e)
    (he : e.eval v = false) : ∃ c ∈ cs, c.eval v = false ∧ ∀ k ∈ c.literals, k ∈ e.literals := by
  rw [Clause.eval_eq_false_iff] at he
  rcases h with htaut | ⟨c, hc, hsame⟩
  · obtain ⟨l, hl, hl'⟩ := Clause.isTautology_iff.1 htaut
    have hneg := he _ hl'
    rw [Literal.eval_negate, he l hl] at hneg
    cases hneg
  · have hsub : ∀ k ∈ c.literals, k ∈ e.literals :=
      fun k hk => (Clause.same_iff.1 hsame).mem_iff.2 hk
    exact ⟨c, hc, Clause.eval_eq_false_iff.2 fun k hk => he k (hsub k hk), hsub⟩

end Evaluation

/-- Two different clauses with complementary literals: whichever comes first, what is left of them
is settled. -/
theorem Closed.exists_settled {cs : List Clause} (h : Closed cs) {c d : Clause} (hc : c ∈ cs)
    (hd : d ∈ cs) (hne : c ≠ d) {l : Literal} (hl : l ∈ c.literals) (hl' : l.negate ∈ d.literals) :
    ∃ e, Settled cs e ∧
      ∀ k ∈ e.literals, (k ∈ c.literals ∧ k ≠ l) ∨ (k ∈ d.literals ∧ k ≠ l.negate) := by
  obtain ⟨i, hi⟩ := List.mem_iff_getElem?.1 hc
  obtain ⟨j, hj⟩ := List.mem_iff_getElem?.1 hd
  rcases Nat.lt_trichotomy i j with hij | rfl | hji
  · obtain ⟨r, hr, hk⟩ := Clause.exists_resolvent_of_negate hl hl'
    exact ⟨r.clause, h i j c d hij hi hj r hr, fun k => (hk k).1⟩
  · exact absurd (Option.some.inj (hi.symm.trans hj)) hne
  · have hl'' : l.negate.negate ∈ c.literals := by rwa [Literal.negate_negate]
    obtain ⟨r, hr, hk⟩ := Clause.exists_resolvent_of_negate hl' hl''
    refine ⟨r.clause, h j i d c hji hj hi r hr, fun k hmem => ?_⟩
    rw [hk, Literal.negate_negate] at hmem
    exact hmem.symm

/-- A clause over one more atom that fails when that atom is given a value holds the literal that
this value falsifies, and its other literals are about earlier atoms and fail as before. -/
theorem critical_literal {cs : List Clause} {v : Atom → Bool} {as : List Atom} {a : Atom} {b : Bool}
    (hv : ∀ c ∈ cs, (∀ l ∈ c.literals, l.atom ∈ as) → c.eval v = true) {c : Clause} (hc : c ∈ cs)
    (hover : ∀ l ∈ c.literals, l.atom ∈ a :: as)
    (hfalse : c.eval (Function.update v a b) = false) :
    a.literal b ∈ c.literals ∧
      ∀ k ∈ c.literals, k ≠ a.literal b → k.atom ≠ a ∧ k.atom ∈ as ∧ k.eval v = false := by
  rw [Clause.eval_eq_false_iff] at hfalse
  have hrest : ∀ k ∈ c.literals, k ≠ a.literal b → k.atom ≠ a ∧ k.atom ∈ as ∧ k.eval v = false := by
    intro k hk hne
    have hatom : k.atom ≠ a := fun e => hne (Literal.eq_literal_of_eval_update e (hfalse k hk))
    refine ⟨hatom, (List.mem_cons.1 (hover k hk)).resolve_left hatom, ?_⟩
    rw [← Literal.eval_update_of_ne hatom b]
    exact hfalse k hk
  refine ⟨?_, hrest⟩
  by_contra hmem
  have hall : ∀ k ∈ c.literals, k.atom ∈ as ∧ k.eval v = false :=
    fun k hk => (hrest k hk fun e => hmem (e ▸ hk)).2
  have htrue := hv c hc fun k hk => (hall k hk).1
  rw [Clause.eval_eq_false_iff.2 fun k hk => (hall k hk).2] at htrue
  cases htrue

/-- A closed list without the empty clause has an assignment for its clauses over any atoms. The
induction decides the atoms from the last to the first. -/
theorem Closed.exists_assignment {cs : List Clause} (h : Closed cs)
    (hne : ∀ c ∈ cs, c.isEmpty = false) (as : List Atom) :
    ∃ v : Atom → Bool, ∀ c ∈ cs, (∀ l ∈ c.literals, l.atom ∈ as) → c.eval v = true := by
  induction as with
  | nil =>
      refine ⟨fun _ => true, fun c hc hover => ?_⟩
      have hnil : c.literals = [] := List.eq_nil_iff_forall_not_mem.2 fun l hl => by
        simpa using hover l hl
      have hempty := hne c hc
      rw [Clause.isEmpty, hnil] at hempty
      cases hempty
  | cons a as ih =>
      obtain ⟨v, hv⟩ := ih
      by_contra hcon
      have hfail : ∀ b, ∃ c ∈ cs, (∀ l ∈ c.literals, l.atom ∈ a :: as) ∧
          c.eval (Function.update v a b) = false := by
        intro b
        by_contra hb
        refine hcon ⟨Function.update v a b, fun c hc hover => ?_⟩
        by_contra htrue
        exact hb ⟨c, hc, hover, by simpa using htrue⟩
      obtain ⟨c, hc, hcover, hcfalse⟩ := hfail false
      obtain ⟨d, hd, hdover, hdfalse⟩ := hfail true
      obtain ⟨hcl, hcrest⟩ := critical_literal hv hc hcover hcfalse
      obtain ⟨hdl, hdrest⟩ := critical_literal hv hd hdover hdfalse
      have hcd : c ≠ d := by
        rintro rfl
        exact (hcrest (a.literal true) hdl (by simp [Atom.literal])).1 rfl
      obtain ⟨e, hsettled, hlits⟩ := h.exists_settled hc hd hcd hcl hdl
      have hlow : ∀ k ∈ e.literals, k.atom ∈ as ∧ k.eval v = false := by
        intro k hk
        rcases hlits k hk with ⟨hkc, hkne⟩ | ⟨hkd, hkne⟩
        · exact (hcrest k hkc hkne).2
        · exact (hdrest k hkd hkne).2
      obtain ⟨f, hf, hffalse, hfsub⟩ :=
        hsettled.exists_false (Clause.eval_eq_false_iff.2 fun k hk => (hlow k hk).2)
      have htrue := hv f hf fun k hk => (hlow k (hfsub k hk)).1
      rw [hffalse] at htrue
      cases htrue

theorem Closed.propSatisfiable {cs : List Clause} (h : Closed cs)
    (hne : ∀ c ∈ cs, c.isEmpty = false) : PropSatisfiable cs := by
  obtain ⟨v, hv⟩ := h.exists_assignment hne ((cs.flatMap Clause.literals).map Literal.atom)
  refine ⟨v, fun c hc => hv c hc fun l hl => ?_⟩
  exact List.mem_map_of_mem (List.mem_flatMap.2 ⟨c, hc, hl⟩)

/-- No literal of the clause has a variable. -/
def Clause.Ground (c : Clause) : Prop := ∀ l ∈ c.literals, ∀ t ∈ l.args, ∀ x, t ≠ .var x

/-- The domain is the terms, every constant stands for itself, atoms have their truth values. -/
def termInterpretation (v : Atom → Bool) : Interpretation Term where
  constant := .const
  relation name args := v ⟨name, args⟩ = true

theorem holdsClause_termInterpretation {c : Clause} (hc : c.Ground) (v : Atom → Bool)
    (ρ : String → Term) : (termInterpretation v).HoldsClause ρ c ↔ c.eval v = true := by
  have hliteral : ∀ l ∈ c.literals,
      ((termInterpretation v).HoldsLiteral ρ l ↔ l.eval v = true) := by
    intro l hl
    have hargs : l.args.map ((termInterpretation v).value ρ) = l.args := by
      refine (List.map_congr_left fun t ht => ?_).trans (List.map_id l.args)
      cases t with
      | var x => exact absurd rfl (hc l hl _ ht x)
      | const a => rfl
    have hatom : (termInterpretation v).HoldsAtom ρ l ↔ v l.atom = true := by
      rw [Interpretation.HoldsAtom, hargs]
      rfl
    rw [Interpretation.HoldsLiteral, hatom, Literal.eval]
    cases l.negated <;> cases v l.atom <;> simp
  rw [Interpretation.HoldsClause, Clause.eval, List.any_eq_true]
  exact exists_congr fun l => and_congr_right fun hl => hliteral l hl

/-- Ground clauses without a model have no truth assignment either. -/
theorem Unsatisfiable.not_propSatisfiable {cs : List Clause} (h : Unsatisfiable.{0} cs)
    (hground : ∀ c ∈ cs, c.Ground) : ¬PropSatisfiable cs := by
  rintro ⟨v, hv⟩
  have : Nonempty Term := ⟨.const ""⟩
  obtain ⟨c, hc, ρ, hρ⟩ := h Term (termInterpretation v)
  exact hρ ((holdsClause_termInterpretation (hground c hc) v ρ).2 (hv c hc))

namespace ProofState

/-- A search that saturates without the empty clause among its input has a truth assignment. -/
theorem Honest.propSatisfiable {input : List Clause} {s : ProofState} (h : s.Honest)
    (hgrown : s.GrownFrom input) (hinput : ∀ c ∈ input, c.isEmpty = false)
    (hs : s.haltReason = HaltReason.saturated) : PropSatisfiable input := by
  have hnone : ∀ step ∈ s.derivation, ¬step.resolvent.isEmpty = true := by
    intro step hstep hempty
    exact reasons_distinct.2.1 (hs.symm.trans (h.refuted.2 ⟨step, hstep, hempty⟩))
  have hne : ∀ c ∈ s.clauses, c.isEmpty = false := by
    intro c hc
    rw [hgrown.clauses, List.mem_append, List.mem_map] at hc
    rcases hc with hc | ⟨step, hstep, rfl⟩
    · exact hinput c hc
    · simpa using hnone step hstep
  obtain ⟨v, hv⟩ := (h.closed hs).propSatisfiable hne
  refine ⟨v, fun c hc => hv c ?_⟩
  rw [hgrown.clauses]
  exact List.mem_append_left _ hc

theorem Honest.unsatisfiable {input : List Clause} {s : ProofState} (h : s.Honest)
    (hgrown : s.GrownFrom input) (hs : s.haltReason = HaltReason.refuted) :
    Unsatisfiable.{0} input := by
  obtain ⟨step, hstep, hempty⟩ := h.refuted.1 hs
  refine hgrown.unsatisfiable (c := step.resolvent) ?_ hempty
  rw [hgrown.clauses]
  exact List.mem_append_right _ (List.mem_map_of_mem hstep)

end ProofState

/-- On ground clauses read from a text the unlimited search ends, refuted exactly when no truth
assignment makes the clauses true, and saturated exactly when one does. -/
theorem ground_search_decides {text : String} {clauses : List Clause}
    (hparse : parseClauses text = .ok clauses) (hground : ∀ c ∈ clauses, c.Ground) :
    let s := ((ProofState.ofClauses clauses).run none).state
    s.halted = true ∧ (s.haltReason = HaltReason.refuted ↔ ¬PropSatisfiable clauses) ∧
      (s.haltReason = HaltReason.saturated ↔ PropSatisfiable clauses) := by
  intro s
  have hgrown : s.GrownFrom clauses := (ProofState.grownFrom_ofClauses clauses).run none
  have hhonest : s.Honest := (ProofState.honest_ofClauses clauses).run none
  obtain ⟨hhalted, hreason⟩ : s.halted = true ∧
      (s.haltReason = HaltReason.refuted ∨ s.haltReason = HaltReason.saturated) :=
    ProofState.haltReason_run_none rfl
  have hrefuted : s.haltReason = HaltReason.refuted → ¬PropSatisfiable clauses :=
    fun h => (hhonest.unsatisfiable hgrown h).not_propSatisfiable hground
  have hsaturated : s.haltReason = HaltReason.saturated → PropSatisfiable clauses :=
    hhonest.propSatisfiable hgrown (isEmpty_of_parseClauses hparse)
  refine ⟨hhalted, ⟨hrefuted, fun hunsat => ?_⟩, ⟨hsaturated, fun hsat => ?_⟩⟩
  · exact hreason.resolve_right fun h => hunsat (hsaturated h)
  · exact hreason.resolve_left fun h => hrefuted h hsat

/-- A repeated literal and a tautology among the input do not hide the contradiction. -/
theorem ground_search_refutes_repeated :
    ∃ clauses, parseClauses "P(a) V P(a), ¬P(a) V Q, ¬Q V ¬P(a), Q V ¬Q" = .ok clauses ∧
      (∀ c ∈ clauses, c.Ground) ∧
      ((ProofState.ofClauses clauses).run none).state.haltReason = HaltReason.refuted := by
  obtain ⟨clauses, hclauses⟩ : ∃ cs : List Clause, cs =
      [⟨[⟨"P", [.const "a"], false⟩, ⟨"P", [.const "a"], false⟩]⟩,
        ⟨[⟨"P", [.const "a"], true⟩, ⟨"Q", [], false⟩]⟩,
        ⟨[⟨"Q", [], true⟩, ⟨"P", [.const "a"], true⟩]⟩,
        ⟨[⟨"Q", [], false⟩, ⟨"Q", [], true⟩]⟩] := ⟨_, rfl⟩
  have hparse : parseClauses "P(a) V P(a), ¬P(a) V Q, ¬Q V ¬P(a), Q V ¬Q" = .ok clauses := by
    rw [hclauses]
    decide +kernel
  have hground : ∀ c ∈ clauses, c.Ground := by
    rw [hclauses]
    simp [Clause.Ground]
  have hunsat : ¬PropSatisfiable clauses := by
    rw [hclauses]
    rintro ⟨v, hv⟩
    simp only [List.forall_mem_cons, Clause.eval, List.any_cons, List.any_nil, Literal.eval,
      Literal.atom] at hv
    cases hp : v ⟨"P", [.const "a"]⟩ <;> cases hq : v ⟨"Q", []⟩ <;> simp [hp, hq] at hv
  exact ⟨clauses, hparse, hground, (ground_search_decides hparse hground).2.1.2 hunsat⟩

end Resolution
