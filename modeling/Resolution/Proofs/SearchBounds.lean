import Mathlib.Data.List.Nodup
import Mathlib.Data.Set.Card
import Resolution.Proofs.CheckedSearch
import Resolution.Proofs.Outcomes

/-!
# How long an unlimited search can take

All clauses of a search are over the atoms that its input allows. Each accepted clause takes up
room of its own among the `3 ^ A` clauses over `A` atoms, so there are at most `3 ^ A` steps at any
moment; and every pass but the last accepts a clause.
-/

namespace Resolution

/-- The atoms of a predicate symbol that occurs, name with arity, over the terms that occur. -/
def signatureAtoms (cs : List Clause) : Set Atom :=
  {a | (∃ c ∈ cs, ∃ l ∈ c.literals, l.name = a.name ∧ l.arity = a.args.length) ∧
    ∀ t ∈ a.args, ∃ c ∈ cs, ∃ l ∈ c.literals, t ∈ l.args}

theorem mem_signatureAtoms {cs : List Clause} {a : Atom} :
    a ∈ signatureAtoms cs ↔ a ∈ atoms cs := by
  rw [mem_atoms, mem_symbols]
  simp only [mem_terms]
  exact Iff.rfl

/-- Joined lists repeat nothing if a key tells which of the lists an entry is from. -/
theorem nodup_flatMap_of_key {α β : Type} {xs : List α} {f : α → List β} (key : β → Option α)
    (hxs : xs.Nodup) (hf : ∀ x ∈ xs, (f x).Nodup)
    (hkey : ∀ x ∈ xs, ∀ y ∈ f x, key y = some x) : (xs.flatMap f).Nodup := by
  refine List.nodup_flatMap.2 ⟨hf, List.Pairwise.imp_of_mem ?_ hxs⟩
  intro x z hx hz hne y hy hyz
  have heq : some x = some z := (hkey x hx y hy).symm.trans (hkey z hz y hyz)
  exact hne (Option.some.inj heq)

theorem nodup_argumentLists {ts : List Term} (h : ts.Nodup) (n : Nat) :
    (argumentLists ts n).Nodup := by
  induction n with
  | zero => exact List.nodup_singleton []
  | succ n ih =>
      apply nodup_flatMap_of_key List.head? h
      · intro t _
        exact ih.map List.cons_injective
      · intro t _ args hargs
        obtain ⟨rest, -, rfl⟩ := List.mem_map.1 hargs
        rfl

/-- No atom is listed twice, for its name and the number of its arguments tell the symbol that it is
listed for. -/
theorem nodup_atoms (cs : List Clause) : (atoms cs).Nodup := by
  apply nodup_flatMap_of_key (fun a : Atom => some (a.name, a.args.length)) (nodup_eraseDups _)
  · intro f _
    have hargs := nodup_argumentLists (nodup_eraseDups _ : (terms cs).Nodup) f.2
    exact hargs.map fun _ _ h => (Atom.mk.inj h).2
  · intro f _ a ha
    obtain ⟨args, hargs, rfl⟩ := List.mem_map.1 ha
    have hlength : args.length = f.2 := (mem_argumentLists.1 hargs).1
    simp only [hlength]

theorem ncard_signatureAtoms (cs : List Clause) :
    (signatureAtoms cs).ncard = (atoms cs).length := by
  have hset : signatureAtoms cs = ↑(atoms cs).toFinset := by
    ext a
    rw [mem_signatureAtoms, Finset.mem_coe, List.mem_toFinset]
  rw [hset, Set.ncard_coe_finset]
  exact List.toFinset_card_of_nodup (nodup_atoms cs)

theorem length_clausesOver (l : List Atom) : (clausesOver l).length = 3 ^ l.length := by
  induction l with
  | nil => rfl
  | cons a l ih =>
      simp only [clausesOver, List.length_flatMap, List.length_cons, List.length_nil,
        List.map_const', List.sum_replicate_nat, ih, pow_succ]

theorem room_le (cs : List Clause) : room cs ≤ 3 ^ (atoms cs).length := by
  rw [← length_clausesOver]
  exact List.countP_le_length

theorem Growth.length_le {cs : List Clause} {steps : List Step} (h : Growth cs steps) :
    steps.length ≤ 3 ^ (signatureAtoms cs).ncard := by
  have hroom := h.room_add_length_le
  have hle := room_le cs
  rw [ncard_signatureAtoms]
  omega

namespace ProofState

/-- The steps so far, also in the middle of a pass. -/
theorem GrownFrom.length_sweepAt_le {input : List Clause} {s : ProofState}
    (h : s.GrownFrom input) (pairs tries : Nat) :
    s.derivation.length + (s.sweepAt pairs tries).accepted.size ≤
      3 ^ (signatureAtoms input).ncard := by
  have hsteps := (s.grownFrom_sweepAt pairs tries).growth
  rw [h.clauses] at hsteps
  have hle := (h.growth.append hsteps).length_le
  rwa [List.length_append, Array.length_toList] at hle

theorem GrownFrom.passed {input : List Clause} {s : ProofState} (h : s.GrownFrom input)
    (n : Nat) : (s.passed n).GrownFrom input := by
  induction n with
  | zero => exact h
  | succ n ih => exact ih.pass

/-- As long as the search stays open, every pass has added a step. -/
theorem le_length_derivation {s : ProofState} {n : Nat}
    (h : ∀ k ≤ n, (s.passed k).halted = false) : n ≤ (s.passed n).derivation.length := by
  induction n with
  | zero => exact Nat.zero_le _
  | succ n ih =>
      have hn := ih fun k hk => h k (Nat.le_succ_of_le hk)
      have hopen := h (n + 1) (Nat.le_refl _)
      have hlength : (s.passed (n + 1)).derivation.length =
          (s.passed n).derivation.length + (s.passed n).sweep.accepted.toList.length :=
        List.length_append
      rcases (s.passed n).pass_cases with ⟨-, hhalted, -⟩ | ⟨-, -, hhalted, -⟩ | ⟨-, hsteps, -, -⟩
      · exact absurd (hopen.symm.trans hhalted) (by simp)
      · exact absurd (hopen.symm.trans hhalted) (by simp)
      · have hpos := List.length_pos_iff.2 hsteps
        omega

/-- An unlimited search meets no cycle and ends refuted or saturated. With `A` atoms it makes at
most `3 ^ A + 1` passes and has at most `3 ^ A` steps, after every pass and within every pass. -/
theorem unlimited_search_bounds (input : List Clause) :
    let start := ofClauses input
    let s := (start.run none).state
    let bound := 3 ^ (signatureAtoms input).ncard
    ∃ n : Nat, s = start.passed n ∧ (∀ k < n, (start.passed k).halted = false) ∧
      start.checkedPasses n = .ok s ∧ s.passes = n ∧ n ≤ bound + 1 ∧ s.halted = true ∧
      (s.haltReason = HaltReason.refuted ∨ s.haltReason = HaltReason.saturated) ∧
      s.derivation.length ≤ bound ∧
      ∀ k < n, ∀ pairs tries : Nat, (start.passed k).derivation.length +
        ((start.passed k).sweepAt pairs tries).accepted.size ≤ bound := by
  intro start s bound
  have hgrown : start.GrownFrom input := grownFrom_ofClauses input
  obtain ⟨n, hgo, hhalted, hrun⟩ := start.run_none_cases
  have hs : s = start.passed n := hrun
  refine ⟨n, hs, hgo, ?_, ?_, ?_, ?_, (haltReason_run_none rfl).2, ?_, ?_⟩
  · rw [hs, checkedPasses_eq]
  · rw [hs, passes_passed]
    exact Int.zero_add _
  · cases n with
    | zero => exact Nat.zero_le _
    | succ n =>
        have hlow : n ≤ (start.passed n).derivation.length :=
          le_length_derivation fun k hk => hgo k (Nat.lt_succ_of_le hk)
        have hhigh := (hgrown.passed n).growth.length_le
        omega
  · rw [hs, hhalted]
  · rw [hs]
    exact (hgrown.passed n).growth.length_le
  · intro k _ pairs tries
    exact (hgrown.passed k).length_sweepAt_le pairs tries

end ProofState

end Resolution
