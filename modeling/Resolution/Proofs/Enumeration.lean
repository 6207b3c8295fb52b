import Mathlib.Data.List.Perm.Subperm
import Resolution.Proofs.CheckedSearch
import Resolution.Proofs.Generality

/-!
# The resolvents of two clauses, one by one

Two literals resolve if their names agree, their signs differ and some map from variables to terms
makes their arguments equal. Each pair of places that hold such literals gives one resolvent, and
the resolvents come in the order of the pairs. A resolvent lists what is left of the two clauses
under the unifier in the order of first occurrence. Every copy of what the literals resolved on have
become is gone, so two literals are lost for certain.
-/

namespace Resolution

section FirstOccurrence

variable {α : Type} [BEq α] [LawfulBEq α]

/-- Of two elements that pass a filter, the one met first was met first before. -/
theorem idxOf_lt_of_filter {p : α → Bool} {l : List α} {a b : α} (ha : p a = true)
    (hb : p b = true) (h : (l.filter p).idxOf a < (l.filter p).idxOf b) :
    l.idxOf a < l.idxOf b := by
  induction l with
  | nil => simp at h
  | cons c l ih =>
      by_cases hc : p c = true
      · rw [List.filter_cons_of_pos hc] at h
        have hcb : c ≠ b := by
          rintro rfl
          simp at h
        by_cases hca : c = a
        · rw [hca, List.idxOf_cons_self, List.idxOf_cons_ne l (hca ▸ hcb)]
          exact Nat.succ_pos _
        · rw [List.idxOf_cons_ne _ hca, List.idxOf_cons_ne _ hcb] at h ⊢
          exact Nat.succ_lt_succ (ih (Nat.lt_of_succ_lt_succ h))
      · rw [List.filter_cons_of_neg hc] at h
        have hca : c ≠ a := fun e => hc (e ▸ ha)
        have hcb : c ≠ b := fun e => hc (e ▸ hb)
        rw [List.idxOf_cons_ne _ hca, List.idxOf_cons_ne _ hcb]
        exact Nat.succ_lt_succ (ih h)

/-- Without its repetitions a list runs in the order of first occurrence. -/
theorem pairwise_idxOf_eraseDups (l : List α) :
    l.eraseDups.Pairwise fun a b => l.idxOf a < l.idxOf b := by
  match l with
  | [] => simp
  | c :: l =>
      have hkept : ∀ a ∈ (l.filter fun b => !b == c).eraseDups, (!a == c) = true := by
        intro a ha
        exact (List.mem_filter.1 (List.mem_eraseDups.1 ha)).2
      have hne : ∀ a ∈ (l.filter fun b => !b == c).eraseDups, c ≠ a := by
        rintro a ha rfl
        simpa using hkept _ ha
      rw [List.eraseDups_cons, List.pairwise_cons]
      constructor
      · intro a ha
        rw [List.idxOf_cons_self, List.idxOf_cons_ne l (hne a ha)]
        exact Nat.succ_pos _
      · refine (pairwise_idxOf_eraseDups _).imp_of_mem fun {a b} ha hb h => ?_
        rw [List.idxOf_cons_ne l (hne a ha), List.idxOf_cons_ne l (hne b hb)]
        exact Nat.succ_lt_succ (idxOf_lt_of_filter (hkept a ha) (hkept b hb) h)
termination_by l.length
decreasing_by exact Nat.lt_succ_of_le (List.length_filter_le _ _)

end FirstOccurrence

/-- The names agree, the signs differ and some map makes the argument lists equal, which are of one
length. -/
def Literal.Resolvable (l m : Literal) : Prop :=
  l.name = m.name ∧ l.negated ≠ m.negated ∧ l.arity = m.arity ∧ ∃ θ, Unifies θ l.args m.args

theorem Literal.Resolvable.symm {l m : Literal} (h : l.Resolvable m) : m.Resolvable l := by
  obtain ⟨hname, hsign, harity, θ, hθ⟩ := h
  exact ⟨hname.symm, hsign.symm, harity.symm, θ, hθ.symm⟩

theorem Clause.exists_resolveOn?_iff {c d : Clause} {l m : Literal} :
    (∃ r, c.resolveOn? d l m = some r) ↔ l.Resolvable m := by
  have hunifier : (∃ u, Unifier.ofLiterals l m.negate = some u) ↔
      l.name = m.name ∧ l.arity = m.arity ∧ ∃ θ, Unifies θ l.args m.args :=
    Unifier.exists_ofLiterals_iff
  constructor
  · rintro ⟨r, hr⟩
    obtain ⟨⟨hname, hsign⟩, u, hu, -⟩ := Clause.resolveOn?_eq_some_iff.1 hr
    exact ⟨hname, hsign, (hunifier.1 ⟨u, hu⟩).2⟩
  · rintro ⟨hname, hsign, hargs⟩
    obtain ⟨u, hu⟩ := hunifier.2 ⟨hname, hargs⟩
    exact ⟨_, Clause.resolveOn?_eq_some_iff.2 ⟨⟨hname, hsign⟩, u, hu, rfl⟩⟩

theorem Clause.exists_mem_resolve {c d : Clause} {l m : Literal} (hl : l ∈ c.literals)
    (hm : m ∈ d.literals) (h : l.Resolvable m) :
    ∃ r ∈ c.resolve d, r.left = l ∧ r.right = m := by
  obtain ⟨r, hr⟩ := Clause.exists_resolveOn?_iff.2 h
  obtain ⟨-, u, -, rfl⟩ := Clause.resolveOn?_eq_some_iff.1 hr
  exact ⟨_, Clause.mem_resolve.2 ⟨l, hl, m, hm, hr⟩, rfl, rfl⟩

theorem Resolvent.resolvable {c d : Clause} {r : Resolvent} (h : r ∈ c.resolve d) :
    r.left.Resolvable r.right := by
  obtain ⟨l, -, m, -, hr⟩ := Clause.mem_resolve.1 h
  obtain ⟨-, u, -, rfl⟩ := Clause.resolveOn?_eq_some_iff.1 hr
  exact Clause.exists_resolveOn?_iff.1 ⟨_, hr⟩

namespace Clause

variable {c d : Clause}

/-- The resolvents, each with the places of the two literals. -/
def placed (c d : Clause) : List ((Nat × Nat) × Resolvent) :=
  c.literals.zipIdx.flatMap fun l => d.literals.zipIdx.filterMap fun m =>
    (c.resolveOn? d l.1 m.1).map fun r => ((l.2, m.2), r)

/-- Without the places these are the resolvents in their order. -/
theorem map_snd_placed (c d : Clause) : (c.placed d).map Prod.snd = c.resolve d := by
  have hinner : ∀ l : Literal × Nat, (d.literals.zipIdx.filterMap fun m =>
      (c.resolveOn? d l.1 m.1).map fun r => ((l.2, m.2), r)).map Prod.snd =
        d.literals.filterMap (c.resolveOn? d l.1) := by
    intro l
    conv_rhs => rw [← List.zipIdx_map_fst 0 d.literals, List.filterMap_map]
    rw [List.map_filterMap]
    congr 1
    funext m
    rw [Option.map_map]
    exact Option.map_id'
  rw [placed, List.map_flatMap, resolve]
  conv_rhs => rw [← List.zipIdx_map_fst 0 c.literals, List.flatMap_map]
  exact congrArg (List.flatMap · c.literals.zipIdx) (funext hinner)

/-- A resolvent stands at the places of any two literals that give it. -/
theorem mem_placed {place : Nat × Nat} {r : Resolvent} :
    (place, r) ∈ c.placed d ↔
      ∃ l m, c.literals[place.1]? = some l ∧ d.literals[place.2]? = some m ∧
        c.resolveOn? d l m = some r := by
  constructor
  · intro h
    obtain ⟨l, hl, h⟩ := List.mem_flatMap.1 h
    obtain ⟨m, hm, h⟩ := List.mem_filterMap.1 h
    obtain ⟨r', hr, heq⟩ := Option.map_eq_some_iff.1 h
    obtain ⟨rfl, rfl⟩ := Prod.mk.inj heq
    exact ⟨l.1, m.1, List.mem_zipIdx_iff_getElem?.1 hl, List.mem_zipIdx_iff_getElem?.1 hm, hr⟩
  · rintro ⟨l, m, hl, hm, hr⟩
    refine List.mem_flatMap.2 ⟨(l, place.1), List.mem_zipIdx_iff_getElem?.2 hl, ?_⟩
    refine List.mem_filterMap.2 ⟨(m, place.2), List.mem_zipIdx_iff_getElem?.2 hm, ?_⟩
    exact Option.map_eq_some_iff.2 ⟨r, hr, rfl⟩

/-- The places at which the clauses resolve, in the order of the resolvents. -/
def places (c d : Clause) : List (Nat × Nat) := (c.placed d).map Prod.fst

theorem length_places (c d : Clause) : (c.places d).length = (c.resolve d).length := by
  rw [← c.map_snd_placed d, places, List.length_map, List.length_map]

/-- The places are those of all literals that resolve. -/
theorem mem_places {place : Nat × Nat} :
    place ∈ c.places d ↔
      ∃ l m, c.literals[place.1]? = some l ∧ d.literals[place.2]? = some m ∧ l.Resolvable m := by
  constructor
  · intro h
    obtain ⟨⟨place, r⟩, hmem, rfl⟩ := List.mem_map.1 h
    obtain ⟨l, m, hl, hm, hr⟩ := mem_placed.1 hmem
    exact ⟨l, m, hl, hm, exists_resolveOn?_iff.1 ⟨r, hr⟩⟩
  · rintro ⟨l, m, hl, hm, hresolvable⟩
    obtain ⟨r, hr⟩ := exists_resolveOn?_iff.2 hresolvable
    exact List.mem_map.2 ⟨(place, r), mem_placed.2 ⟨l, m, hl, hm, hr⟩, rfl⟩

theorem pairwise_zipIdx {α : Type} (l : List α) : l.zipIdx.Pairwise fun a b => a.2 < b.2 := by
  refine List.pairwise_map.1 ?_
  rw [List.zipIdx_map_snd]
  exact List.pairwise_lt_range'

/-- The places come in lexicographic order. -/
theorem pairwise_places (c d : Clause) :
    (c.places d).Pairwise (Prod.Lex (· < ·) (· < ·)) := by
  rw [places, List.pairwise_map, placed, List.pairwise_flatMap]
  constructor
  · intro l _
    rw [List.pairwise_filterMap]
    refine (pairwise_zipIdx d.literals).imp fun {m m'} hlt p hp q hq => ?_
    obtain ⟨r, -, rfl⟩ := Option.map_eq_some_iff.1 hp
    obtain ⟨r', -, rfl⟩ := Option.map_eq_some_iff.1 hq
    exact .right _ hlt
  · refine (pairwise_zipIdx c.literals).imp fun {l l'} hlt p hp q hq => ?_
    obtain ⟨m, -, hm⟩ := List.mem_filterMap.1 hp
    obtain ⟨r, -, rfl⟩ := Option.map_eq_some_iff.1 hm
    obtain ⟨m', -, hm'⟩ := List.mem_filterMap.1 hq
    obtain ⟨r', -, rfl⟩ := Option.map_eq_some_iff.1 hm'
    exact .left _ _ hlt

theorem length_remaining_lt {u : Unifier} {l : Literal} (h : l ∈ c.literals) :
    (c.remaining u l).length < c.literals.length := by
  have hlt : (c.remaining u l).length < (u.applyClause c).literals.length := by
    refine List.length_filter_lt_length_iff_exists.2 ⟨u.applyLiteral l, ?_, by simp⟩
    exact List.mem_map_of_mem h
  exact Nat.lt_of_lt_of_eq hlt (List.length_map _)

end Clause

/-- What makes an entry a binary resolvent of the two clauses. -/
structure Resolvent.Binary (r : Resolvent) (c d : Clause) : Prop where
  complementary : r.unifier.applyLiteral r.left = (r.unifier.applyLiteral r.right).negate
  nodup : r.clause.literals.Nodup
  mem_iff : ∀ k, k ∈ r.clause.literals ↔
    (k ∈ (r.unifier.applyClause c).literals ∧ k ≠ r.unifier.applyLiteral r.left) ∨
      (k ∈ (r.unifier.applyClause d).literals ∧ k ≠ r.unifier.applyLiteral r.right)
  /-- The literals run in the order in which they are first met in what is left. -/
  ordered : r.clause.literals.Pairwise fun k k' =>
    (c.remaining r.unifier r.left ++ d.remaining r.unifier r.right).idxOf k <
      (c.remaining r.unifier r.left ++ d.remaining r.unifier r.right).idxOf k'
  length_le : r.clause.literals.length + 2 ≤ c.literals.length + d.literals.length

theorem Resolvent.binary {c d : Clause} {r : Resolvent} (h : r ∈ c.resolve d) : r.Binary c d := by
  obtain ⟨hleft, hright, -, -, hclause⟩ := Clause.resolve_cases h
  have hnodup := Clause.nodup_of_mem_resolve h
  refine ⟨Resolvent.complementary h, hnodup, fun k => Resolvent.mem_literals_iff h, ?_, ?_⟩
  · rw [hclause]
    exact pairwise_idxOf_eraseDups _
  · have hsub : r.clause.literals ⊆
        c.remaining r.unifier r.left ++ d.remaining r.unifier r.right := by
      intro k hk
      rw [hclause] at hk
      exact List.mem_eraseDups.1 hk
    have hle := (List.subperm_of_subset hnodup hsub).length_le
    have hc := Clause.length_remaining_lt (u := r.unifier) hleft
    have hd := Clause.length_remaining_lt (u := r.unifier) hright
    rw [List.length_append] at hle
    omega

/-- Resolving two clauses is always answered. There is one resolvent for each pair of places whose
literals resolve, in lexicographic order of the pairs, and it is their binary resolvent. -/
theorem resolve_enumerates (c d : Clause) :
    c.checkedResolve d = .ok ((c.resolve d).map Resolvent.entry) ∧
      ∃ places : List (Nat × Nat),
        places.Pairwise (Prod.Lex (· < ·) (· < ·)) ∧
        (∀ place, place ∈ places ↔ ∃ l m, c.literals[place.1]? = some l ∧
          d.literals[place.2]? = some m ∧ l.Resolvable m) ∧
        List.Forall₂ (fun place r => c.literals[place.1]? = some r.left ∧
          d.literals[place.2]? = some r.right ∧ r.Binary c d) places (c.resolve d) := by
  refine ⟨c.checkedResolve_eq d, c.places d, c.pairwise_places d,
    fun place => Clause.mem_places, ?_⟩
  rw [Clause.places, ← c.map_snd_placed d, List.forall₂_map_left_iff, List.forall₂_map_right_iff,
    List.forall₂_same]
  rintro ⟨place, r⟩ hmem
  have hr : r ∈ c.resolve d := by
    rw [← c.map_snd_placed d]
    exact List.mem_map_of_mem hmem
  obtain ⟨l, m, hl, hm, hon⟩ := Clause.mem_placed.1 hmem
  obtain ⟨-, u, -, rfl⟩ := Clause.resolveOn?_eq_some_iff.1 hon
  exact ⟨hl, hm, Resolvent.binary hr⟩

/-- Under the first unifier both literals of the first clause become the one resolved on and are
gone, while the same literal of the second clause is kept. -/
example :
    let c : Clause := ⟨[⟨"P", [.var "x"], false⟩, ⟨"P", [.const "a"], false⟩]⟩
    let d : Clause := ⟨[⟨"P", [.const "a"], true⟩, ⟨"P", [.const "a"], false⟩]⟩
    (c.resolve d).map (fun r => r.clause.literals) =
      [[⟨"P", [.const "a"], false⟩],
        [⟨"P", [.var "x"], false⟩, ⟨"P", [.const "a"], false⟩]] := by
  decide +kernel

end Resolution
