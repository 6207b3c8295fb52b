import Resolution.Proofs.Selections

/-!
# Minimizing twice

A derivation is dense if its last clause rests on every step. The steps that minimizing keeps form a
dense derivation: what a step cites stays cited under the new numbers, so the steps that were
reached from the start are reached from the last one kept. A dense derivation is its own slice, in
which each number is its own new number, and minimizing leaves it as it is.
-/

namespace Resolution.Derivation

variable {n : Nat} {steps : List Step}

/-- Minimizing fails only where the slice does: the new numbers are always found. -/
theorem minimize_eq_error {numInput start : Int} {e : SliceError} :
    minimize steps numInput (some start) = .error e ↔ needed steps numInput start = .error e := by
  cases hneeded : needed steps numInput start with
  | error e' =>
      have hfails : minimize steps numInput (some start) = .error e' := by
        rw [minimize, hneeded]
        rfl
      simp [hfails]
  | ok numbers =>
      obtain ⟨short, hshort⟩ := exists_renumbered_of_needed hneeded
      rw [minimize_eq_ok.2 ⟨numbers, hneeded, hshort⟩]
      simp

/-- Each step has two parents before it, all of them clauses of the derivation, and the last clause
rests on every step. -/
structure Dense (n : Nat) (steps : List Step) : Prop where
  earlier : ∀ k step, stepAt? steps n k = some step → step.CitesEarlier k
  cites : ∀ k p, Cites steps n k p → 1 ≤ p
  reached : ∀ i : Nat, i < steps.length →
    RestsOn steps n ((n : Int) + steps.length) ((n : Int) + i + 1)

theorem inputNumbers_at {m : Int} {k : Int} (hk : 1 ≤ k) (hm : k ≤ m) :
    (inputNumbers m)[(k - 1).toNat]? = some k := by
  have hlt : (k - 1).toNat < m.toNat := by omega
  have hcast : ((k - 1).toNat : Int) + 1 = k := by omega
  rw [inputNumbers, List.getElem?_map, List.getElem?_range hlt, Option.map_some, hcast]

namespace Dense

theorem exists_needed (h : Dense n steps) :
    ∃ numbers, needed steps n ((n : Int) + steps.length) = .ok numbers :=
  exists_needed_eq_ok fun k _ step hstep => h.earlier k step hstep

theorem needed_eq (h : Dense n steps) (hne : steps ≠ []) :
    needed steps n ((n : Int) + steps.length) = .ok (inputNumbers ((n : Int) + steps.length)) := by
  have hpos : 0 < steps.length := List.length_pos_iff.2 hne
  obtain ⟨numbers, hneeded⟩ := h.exists_needed
  have hselection : Selection n steps numbers :=
    .of_needed hneeded (by omega) (Int.le_refl _) fun k p _ hcite => h.cites k p hcite
  obtain ⟨-, hmem⟩ := needed_eq_ok hneeded
  have hall : numbers = inputNumbers ((n : Int) + steps.length) := by
    refine hselection.sorted.eq_of_mem_iff (inputNumbers_ascending _) fun k => ?_
    rw [mem_inputNumbers]
    refine ⟨hselection.bounds k, fun hk => (hmem k).2 ?_⟩
    by_cases hle : k ≤ n
    · exact .inl (mem_inputNumbers.2 ⟨hk.1, hle⟩)
    · have hreached := h.reached (k - n - 1).toNat (by omega)
      rw [show (n : Int) + (k - n - 1).toNat + 1 = k by omega] at hreached
      exact .inr hreached
  rw [hneeded, hall]

/-- Over all numbers each number is its own new number. -/
theorem renumberStep_eq (h : Dense n steps) {i : Nat} {step : Step} (hi : steps[i]? = some step) :
    renumberStep (inputNumbers ((n : Int) + steps.length)) step = .ok step := by
  have hlt : i < steps.length := (List.getElem?_eq_some_iff.1 hi).choose
  have hstep : stepAt? steps n ((n : Int) + i + 1) = some step := stepAt?_eq_some_iff.2 ⟨i, rfl, hi⟩
  obtain ⟨p, q, hparents, hp, hq⟩ := h.earlier _ step hstep
  have hp' : 1 ≤ p := h.cites _ p ⟨step, hstep, by simp [hparents]⟩
  have hq' : 1 ≤ q := h.cites _ q ⟨step, hstep, by simp [hparents]⟩
  have hcastp : ((p - 1).toNat : Int) + 1 = p := by omega
  have hcastq : ((q - 1).toNat : Int) + 1 = q := by omega
  rw [renumberStep_eq_ok (inputNumbers_ascending _) hparents (inputNumbers_at hp' (by omega))
    (inputNumbers_at hq' (by omega)), hcastp, hcastq, ← hparents]

theorem renumbered_eq (h : Dense n steps) :
    renumbered steps n (inputNumbers ((n : Int) + steps.length)) = .ok steps := by
  have hkept : kept steps n (inputNumbers ((n : Int) + steps.length)) = steps.zipIdx := by
    refine List.filter_eq_self.2 ?_
    rintro ⟨step, i⟩ hentry
    have hi := List.mk_mem_zipIdx_iff_getElem?.1 hentry
    have hlt : i < steps.length := (List.getElem?_eq_some_iff.1 hi).choose
    rw [List.contains_iff_mem, mem_inputNumbers]
    omega
  have hsame : List.Forall₂
      (fun entry step => renumberStep (inputNumbers ((n : Int) + steps.length)) entry.1 = .ok step)
      steps.zipIdx (steps.zipIdx.map Prod.fst) := by
    rw [List.forall₂_map_right_iff, List.forall₂_same]
    rintro ⟨step, i⟩ hentry
    exact h.renumberStep_eq (List.mk_mem_zipIdx_iff_getElem?.1 hentry)
  rw [List.zipIdx_map_fst] at hsame
  rw [renumbered, hkept]
  exact Fallible.mapM_eq_ok.2 hsame

theorem minimize_eq (h : Dense n steps) :
    minimize steps n (some ((n : Int) + steps.length)) = .ok steps := by
  by_cases hne : steps = []
  · subst hne
    obtain ⟨numbers, hneeded⟩ := h.exists_needed
    exact minimize_eq_ok.2 ⟨numbers, hneeded, rfl⟩
  · exact minimize_eq_ok.2 ⟨_, h.needed_eq hne, h.renumbered_eq⟩

end Dense

namespace Selection

variable {numbers : List Int} {short : List Step} {start : Int} (h : Selection n steps numbers)
  (hneeded : needed steps n start = .ok numbers)
  (hshort : renumbered steps n numbers = .ok short)

include h hneeded hshort

/-- Renumbering keeps what a clause rests on. -/
theorem restsOn_renumbered {k : Int} (hk : RestsOn steps n start k) {a b : Nat}
    (ha : numbers[a]? = some start) (hb : numbers[b]? = some k) :
    RestsOn short n ((a : Int) + 1) ((b : Int) + 1) := by
  induction hk generalizing b with
  | refl =>
      rw [eq_of_ascending h.sorted ha hb]
      exact .refl
  | tail hrests hcite ih =>
      have hmem := ((needed_eq_ok hneeded).2 _).2 (.inr hrests)
      obtain ⟨c, hc⟩ := List.mem_iff_getElem?.1 hmem
      exact (ih hc).tail (h.cites_renumbered hshort hcite hc hb)

/-- The start has the last of the new numbers, for a number behind it would be greater than the
start. -/
theorem start_at (hstart : n < start) :
    ∃ a : Nat, numbers[a]? = some start ∧ a + 1 = n + short.length := by
  obtain ⟨-, hmem⟩ := needed_eq_ok hneeded
  obtain ⟨a, ha⟩ := List.mem_iff_getElem?.1 ((hmem start).2 (.inr .refl))
  have hlt : a < numbers.length := (List.getElem?_eq_some_iff.1 ha).choose
  refine ⟨a, ha, ?_⟩
  rw [← h.length_eq hshort]
  by_contra hne
  have hnext : numbers[a + 1]? = some numbers[a + 1] := List.getElem?_eq_getElem (by omega)
  have hgreater := (lt_iff_of_ascending h.sorted ha hnext).1 (Nat.lt_succ_self a)
  rcases (hmem _).1 (List.mem_of_getElem? hnext) with hinput | hrests
  · rw [mem_inputNumbers] at hinput
    omega
  · have hle := le_of_restsOn hneeded hrests
    omega

/-- The parents of a step that was reached stood before it, and they do so under the new numbers. -/
theorem parents_renumbered {t : Nat} {step' : Step} (ht : short[t]? = some step') :
    ∃ i j : Nat, step'.parents = [(i : Int) + 1, (j : Int) + 1] ∧ i < n + t ∧ j < n + t := by
  obtain ⟨⟨step, k⟩, hkept, -⟩ := (Fallible.getElem?_of_mapM hshort).1 ht
  obtain ⟨step'', p, q, i, j, ht', hparents, hi, hj, hparents'⟩ := parents_at hshort hkept
  obtain rfl := Option.some.inj (ht.symm.trans ht')
  obtain ⟨hstep, hrests⟩ := restsOn_of_mem_kept hneeded (List.mem_of_getElem? hkept)
  obtain ⟨p', q', hparents'', hp, hq⟩ := citesEarlier_of_needed hneeded hrests hstep
  rw [hparents] at hparents''
  cases hparents''
  refine ⟨i, j, hparents', ?_, ?_⟩
  · exact (lt_iff_of_ascending h.sorted hi (h.number_at hkept)).2 hp
  · exact (lt_iff_of_ascending h.sorted hj (h.number_at hkept)).2 hq

theorem dense_renumbered (hstart : n < start) : Dense n short where
  earlier k step hstep := by
    obtain ⟨t, rfl, ht⟩ := stepAt?_eq_some_iff.1 hstep
    obtain ⟨i, j, hparents, hi, hj⟩ := parents_renumbered h hneeded hshort ht
    exact ⟨_, _, hparents, by omega, by omega⟩
  cites k p hcite := by
    obtain ⟨step, hstep, hp⟩ := hcite
    obtain ⟨t, rfl, ht⟩ := stepAt?_eq_some_iff.1 hstep
    obtain ⟨i, j, hparents, -, -⟩ := parents_renumbered h hneeded hshort ht
    rw [hparents, List.mem_pair] at hp
    omega
  reached t ht := by
    have hlt : t < (kept steps n numbers).length := by rwa [← length_renumbered hshort]
    have hkept := List.getElem?_eq_getElem hlt
    obtain ⟨-, hrests⟩ := restsOn_of_mem_kept hneeded (List.mem_of_getElem? hkept)
    obtain ⟨a, ha, hlast⟩ := start_at h hneeded hshort hstart
    have hnew := restsOn_renumbered h hneeded hshort hrests ha (h.number_at hkept)
    rwa [show (a : Int) + 1 = n + short.length by omega, Int.natCast_add] at hnew

end Selection

/-- A walk from a number that no step has keeps no step. -/
theorem kept_eq_nil {numInput start : Int} {numbers : List Int}
    (hneeded : needed steps numInput start = .ok numbers)
    (hstart : stepAt? steps numInput start = none) : kept steps numInput numbers = [] := by
  refine List.eq_nil_iff_forall_not_mem.2 ?_
  rintro ⟨step, k⟩ hentry
  obtain ⟨hstep, hrests⟩ := restsOn_of_mem_kept hneeded hentry
  rcases Relation.ReflTransGen.cases_head hrests with heq | ⟨p, ⟨step', hstep', -⟩, -⟩
  · rw [← heq, hstart] at hstep
    cases hstep
  · rw [hstart] at hstep'
    cases hstep'

theorem dense_nil (n : Nat) : Dense n [] := by
  have hnone : ∀ k, stepAt? [] (n : Int) k = none := by
    intro k
    simp [stepAt?]
  refine ⟨fun k step hstep => ?_, fun k p hcite => ?_, fun i hi => ?_⟩
  · rw [hnone] at hstep
    cases hstep
  · obtain ⟨step, hstep, -⟩ := hcite
    rw [hnone] at hstep
    cases hstep
  · cases hi

theorem dense_of_minimize {start : Int} {numbers : List Int} {short : List Step}
    (hneeded : needed steps n start = .ok numbers)
    (hshort : renumbered steps n numbers = .ok short)
    (hparents : ∀ entry ∈ kept steps n numbers, ∀ p ∈ entry.1.parents, 1 ≤ p) : Dense n short := by
  cases hstart : stepAt? steps n start with
  | none =>
      have hnil : short = [] := by
        have hlength := length_renumbered hshort
        rw [kept_eq_nil hneeded hstart] at hlength
        exact List.eq_nil_of_length_eq_zero hlength
      rw [hnil]
      exact dense_nil n
  | some step =>
      obtain ⟨i, hi, hat⟩ := stepAt?_eq_some_iff.1 hstart
      have hlt : i < steps.length := (List.getElem?_eq_some_iff.1 hat).choose
      have hselection : Selection n steps numbers := by
        refine .of_needed hneeded (by omega) (by omega) fun k p hrests hcite => ?_
        obtain ⟨citing, hciting, hp⟩ := hcite
        obtain ⟨j, rfl, hj⟩ := stepAt?_eq_some_iff.1 hciting
        exact hparents (citing, j)
          (mem_kept.2 ⟨hj, ((needed_eq_ok hneeded).2 _).2 (.inr hrests)⟩) p hp
      exact hselection.dense_renumbered hneeded hshort (lt_of_stepAt?_eq_some hstart)

/-- Minimizing any derivation from any start fails exactly as its slice does. If the number of input
clauses is not negative and the steps that are kept cite no number below 1, then minimizing the
result, from its last clause, gives the result again. -/
theorem minimize_total_idempotent (derivation : List Step) (numInput start : Int) :
    (∀ e, minimize derivation numInput (some start) = .error e ↔
        needed derivation numInput start = .error e) ∧
      ∀ numbers short, needed derivation numInput start = .ok numbers →
        minimize derivation numInput (some start) = .ok short → 0 ≤ numInput →
        (∀ entry ∈ kept derivation numInput numbers, ∀ p ∈ entry.1.parents, 1 ≤ p) →
        minimize short numInput (some (numInput + short.length)) = .ok short := by
  refine ⟨fun e => minimize_eq_error, fun numbers short hneeded hshort hinput hparents => ?_⟩
  obtain ⟨n, rfl⟩ := Int.eq_ofNat_of_zero_le hinput
  obtain ⟨numbers', hneeded', hshort'⟩ := minimize_eq_ok.1 hshort
  obtain rfl : numbers = numbers' := Except.ok.inj (hneeded.symm.trans hneeded')
  exact (dense_of_minimize hneeded hshort' hparents).minimize_eq

/-- The second step is dropped from between two that are kept, and the last step, which has only one
parent, is not looked at. -/
theorem minimize_total_idempotent_gap :
    let cites (parents : List Int) : Step := { resolvent := ⟨[]⟩, parents, literals := [] }
    let derivation := [cites [1, 2], cites [1, 3], cites [3, 2], cites [3, 5], cites [9]]
    let short := [cites [1, 2], cites [3, 2], cites [3, 4]]
    minimize derivation 2 (some 6) = .ok short ∧ minimize short 2 (some 5) = .ok short := by
  intro cites derivation short
  have hcollect : collect derivation 2 6 [] = .ok [3, 5, 6] := by decide +kernel
  have hneeded : needed derivation 2 6 = .ok [1, 2, 3, 5, 6] := by
    rw [needed, hcollect]
    exact congrArg Except.ok (List.mergeSort_of_pairwise (by decide))
  have hshort : minimize derivation 2 (some 6) = .ok short :=
    minimize_eq_ok.2 ⟨_, hneeded, by decide +kernel⟩
  have hagain := (minimize_total_idempotent derivation 2 6).2 _ short hneeded hshort (by decide)
  exact ⟨hshort, hagain (by decide)⟩

end Resolution.Derivation
