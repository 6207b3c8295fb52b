import Resolution.Proofs.Slices

/-!
# Leaving steps out of a derivation

Steps may be left out of a derivation as long as the parents of every step that stays are kept. The
new number of a clause is one more than its place among the old numbers kept. These are ascending,
first the numbers of the input and then those of the steps that stay, so at each place stands the
clause that the number at this place names in the whole derivation.
-/

namespace Resolution

theorem lt_iff_of_ascending {numbers : List Int} (h : numbers.Pairwise (· < ·)) {i j : Nat}
    {a b : Int} (hi : numbers[i]? = some a) (hj : numbers[j]? = some b) : i < j ↔ a < b := by
  obtain ⟨hi, rfl⟩ := List.getElem?_eq_some_iff.1 hi
  obtain ⟨hj, rfl⟩ := List.getElem?_eq_some_iff.1 hj
  exact h.sortedLT.getElem_lt_getElem_iff.symm

theorem eq_of_ascending {numbers : List Int} (h : numbers.Pairwise (· < ·)) {i j : Nat} {a : Int}
    (hi : numbers[i]? = some a) (hj : numbers[j]? = some a) : i = j := by
  have hlt := lt_iff_of_ascending h hi hj
  have hgt := lt_iff_of_ascending h hj hi
  omega

namespace Derivation

theorem stepAt?_eq_some_iff {steps : List Step} {n k : Int} {step : Step} :
    stepAt? steps n k = some step ↔ ∃ i : Nat, k = n + i + 1 ∧ steps[i]? = some step := by
  unfold stepAt?
  dsimp only
  constructor
  · intro h
    split at h
    · exact ⟨_, by omega, h⟩
    · cases h
  · rintro ⟨i, rfl, h⟩
    rw [if_pos (by omega), show (n + i + 1 - (n + 1)).toNat = i by omega]
    exact h

theorem renumber_eq_ok {numbers : List Int} (h : numbers.Pairwise (· < ·)) {i : Nat} {a : Int}
    (hi : numbers[i]? = some a) : renumber numbers a = .ok (i + 1) := by
  have hidx : numbers.idxOf? a = some i := by
    obtain ⟨hlt, ha⟩ := List.getElem?_eq_some_iff.1 hi
    refine List.idxOf?_eq_some_iff.2 ⟨hlt, ha, fun j hj hja => ?_⟩
    have hjlt : j < numbers.length := Nat.lt_trans hj hlt
    have horder := lt_iff_of_ascending h (List.getElem?_eq_getElem hjlt) hi
    omega
  rw [renumber, hidx]

theorem renumberStep_eq_ok {numbers : List Int} (h : numbers.Pairwise (· < ·)) {step : Step}
    {p q : Int} {i j : Nat} (hparents : step.parents = [p, q]) (hi : numbers[i]? = some p)
    (hj : numbers[j]? = some q) :
    renumberStep numbers step = .ok { step with parents := [(i : Int) + 1, (j : Int) + 1] } := by
  rw [renumberStep, Step.parentPair_eq_ok.2 hparents]
  dsimp only
  rw [renumber_eq_ok h hi, renumber_eq_ok h hj]
  rfl

theorem of_renumber {numbers : List Int} {a b : Int} (h : renumber numbers a = .ok b) :
    ∃ i : Nat, numbers[i]? = some a ∧ b = i + 1 := by
  unfold renumber at h
  split at h
  · next i hidx =>
      obtain ⟨hlt, ha, -⟩ := List.idxOf?_eq_some_iff.1 hidx
      exact ⟨i, List.getElem?_eq_some_iff.2 ⟨hlt, ha⟩, (Except.ok.inj h).symm⟩
  · cases h

theorem of_renumberStep {numbers : List Int} {step step' : Step}
    (h : renumberStep numbers step = .ok step') :
    ∃ (p q : Int) (i j : Nat), step.parents = [p, q] ∧ numbers[i]? = some p ∧
      numbers[j]? = some q ∧ step' = { step with parents := [(i : Int) + 1, (j : Int) + 1] } := by
  unfold renumberStep at h
  split at h
  · cases h
  · next p q hpair =>
      obtain ⟨p', hp, h⟩ := Fallible.bind_eq_ok.1 h
      obtain ⟨q', hq, h⟩ := Fallible.bind_eq_ok.1 h
      obtain ⟨i, hi, rfl⟩ := of_renumber hp
      obtain ⟨j, hj, rfl⟩ := of_renumber hq
      exact ⟨p, q, i, j, Step.parentPair_eq_ok.1 hpair, hi, hj, (Except.ok.inj h).symm⟩

theorem resolvent_renumberStep {numbers : List Int} {step step' : Step}
    (h : renumberStep numbers step = .ok step') : step'.resolvent = step.resolvent := by
  obtain ⟨p, q, i, j, -, -, -, rfl⟩ := of_renumberStep h
  rfl

/-- The steps of a selection, with their places in the whole derivation. -/
def kept (steps : List Step) (numInput : Int) (numbers : List Int) : List (Step × Nat) :=
  steps.zipIdx.filter fun entry => numbers.contains (numInput + entry.2 + 1)

theorem mem_kept {steps : List Step} {numInput : Int} {numbers : List Int} {step : Step}
    {k : Nat} :
    (step, k) ∈ kept steps numInput numbers ↔
      steps[k]? = some step ∧ numInput + k + 1 ∈ numbers := by
  rw [kept, List.mem_filter, List.mk_mem_zipIdx_iff_getElem?, List.contains_iff_mem]

theorem of_kept_at {steps : List Step} {numInput : Int} {numbers : List Int} {step : Step}
    {t k : Nat} (ht : (kept steps numInput numbers)[t]? = some (step, k)) :
    steps[k]? = some step ∧ numInput + k + 1 ∈ numbers :=
  mem_kept.1 (List.mem_of_getElem? ht)

/-- The steps of a selection under their new numbers. -/
def renumbered (steps : List Step) (numInput : Int) (numbers : List Int) :
    Except SliceError (List Step) :=
  (kept steps numInput numbers).mapM fun entry => renumberStep numbers entry.1

theorem minimize_eq_ok {steps short : List Step} {numInput start : Int} :
    minimize steps numInput (some start) = .ok short ↔
      ∃ numbers, needed steps numInput start = .ok numbers ∧
        renumbered steps numInput numbers = .ok short :=
  Fallible.bind_eq_ok

theorem map_resolvent_renumbered {steps short : List Step} {numInput : Int} {numbers : List Int}
    (h : renumbered steps numInput numbers = .ok short) :
    short.map Step.resolvent =
      (kept steps numInput numbers).map fun entry => entry.1.resolvent := by
  rw [← List.forall₂_eq_eq_eq, List.forall₂_map_left_iff, List.forall₂_map_right_iff]
  exact ((Fallible.mapM_eq_ok.1 h).imp fun _ _ => resolvent_renumberStep).flip

theorem length_renumbered {steps short : List Step} {numInput : Int} {numbers : List Int}
    (h : renumbered steps numInput numbers = .ok short) :
    short.length = (kept steps numInput numbers).length :=
  (Fallible.mapM_eq_ok.1 h).length_eq.symm

/-- The parents of a step under their new numbers. -/
theorem parents_at {steps short : List Step} {numInput : Int} {numbers : List Int}
    (h : renumbered steps numInput numbers = .ok short) {t k : Nat} {step : Step}
    (ht : (kept steps numInput numbers)[t]? = some (step, k)) :
    ∃ (step' : Step) (p q : Int) (i j : Nat), short[t]? = some step' ∧ step.parents = [p, q] ∧
      numbers[i]? = some p ∧ numbers[j]? = some q ∧
      step'.parents = [(i : Int) + 1, (j : Int) + 1] := by
  have hlt : t < short.length := by
    rw [length_renumbered h]
    exact (List.getElem?_eq_some_iff.1 ht).choose
  have hshort : short[t]? = some short[t] := List.getElem?_eq_getElem hlt
  obtain ⟨entry, hentry, hstep⟩ := (Fallible.getElem?_of_mapM h).1 hshort
  obtain rfl := Option.some.inj (ht.symm.trans hentry)
  obtain ⟨p, q, i, j, hparents, hi, hj, hstep'⟩ := of_renumberStep hstep
  exact ⟨short[t], p, q, i, j, hshort, hparents, hi, hj, by rw [hstep']⟩

/-- The steps kept in a slice are steps that its start rests on. -/
theorem restsOn_of_mem_kept {steps : List Step} {numInput start : Int} {numbers : List Int}
    (h : needed steps numInput start = .ok numbers) {step : Step} {k : Nat}
    (hentry : (step, k) ∈ kept steps numInput numbers) :
    stepAt? steps numInput (numInput + k + 1) = some step ∧
      RestsOn steps numInput start (numInput + k + 1) := by
  obtain ⟨hat, hnumber⟩ := mem_kept.1 hentry
  have hstep : stepAt? steps numInput (numInput + k + 1) = some step :=
    stepAt?_eq_some_iff.2 ⟨k, rfl, hat⟩
  exact ⟨hstep, (((needed_eq_ok h).2 _).1 hnumber).resolve_left
    (not_mem_inputNumbers_of_stepAt? hstep)⟩

/-- What a slice keeps can be renumbered: the parents of its steps are in the slice, wherever they
are. -/
theorem exists_renumbered_of_needed {steps : List Step} {numInput start : Int}
    {numbers : List Int} (h : needed steps numInput start = .ok numbers) :
    ∃ short, renumbered steps numInput numbers = .ok short := by
  obtain ⟨hsorted, hmem⟩ := needed_eq_ok h
  refine Fallible.exists_mapM_eq_ok ?_
  rintro ⟨step, k⟩ hentry
  obtain ⟨hstep, hrests⟩ := restsOn_of_mem_kept h hentry
  have hparent : ∀ p ∈ step.parents, p ∈ numbers :=
    fun p hp => (hmem p).2 (.inr (hrests.tail ⟨step, hstep, hp⟩))
  obtain ⟨p, q, hparents, -, -⟩ := citesEarlier_of_needed h hrests hstep
  obtain ⟨i, hi⟩ := List.mem_iff_getElem?.1 (hparent p (by simp [hparents]))
  obtain ⟨j, hj⟩ := List.mem_iff_getElem?.1 (hparent q (by simp [hparents]))
  exact ⟨_, renumberStep_eq_ok hsorted hparents hi hj⟩

/-- The numbers, ascending, of clauses that can stand without the others: the input is kept, and the
parents of every step that is kept. -/
structure Selection (n : Nat) (steps : List Step) (numbers : List Int) : Prop where
  sorted : numbers.Pairwise (· < ·)
  input : ∀ k ∈ inputNumbers n, k ∈ numbers
  bounds : ∀ k ∈ numbers, 1 ≤ k ∧ k ≤ n + steps.length
  parents : ∀ k ∈ numbers, ∀ p, Cites steps n k p → p ∈ numbers

namespace Selection

variable {n : Nat} {steps : List Step} {numbers : List Int}

/-- A slice is a selection if it starts from a clause of the derivation and all that its steps cite
are clauses of it. -/
theorem of_needed {start : Int} (hneeded : needed steps n start = .ok numbers) (hstart : 1 ≤ start)
    (hle : start ≤ n + steps.length)
    (hcites : ∀ k p, RestsOn steps n start k → Cites steps n k p → 1 ≤ p) :
    Selection n steps numbers := by
  obtain ⟨hsorted, hmem⟩ := needed_eq_ok hneeded
  refine ⟨hsorted, fun k hk => (hmem k).2 (.inl hk), fun k hk => ?_, fun k hk p hcite => ?_⟩
  · rcases (hmem k).1 hk with hk | hk
    · rw [mem_inputNumbers] at hk
      omega
    · have hupper := le_of_restsOn hneeded hk
      have hlower : 1 ≤ k := by
        cases hk with
        | refl => exact hstart
        | tail hrests hcite => exact hcites _ k hrests hcite
      omega
  · have hderived := not_mem_inputNumbers_of_stepAt? hcite.choose_spec.1
    have hrests := ((hmem k).1 hk).resolve_left hderived
    exact (hmem p).2 (.inr (hrests.tail hcite))

theorem numbers_eq (h : Selection n steps numbers) :
    numbers = inputNumbers n ++
      (kept steps n numbers).map fun entry => (n : Int) + entry.2 + 1 := by
  have hplaces : (kept steps n numbers).Pairwise fun e e' => e.2 < e'.2 := by
    refine List.Pairwise.filter _ ?_
    rw [← List.pairwise_map (f := Prod.snd) (R := fun i j : Nat => i < j), List.zipIdx_map_snd]
    exact List.pairwise_lt_range'
  have hsorted : (inputNumbers n ++ (kept steps n numbers).map
      fun entry => (n : Int) + entry.2 + 1).Pairwise (· < ·) := by
    refine List.pairwise_append.2 ⟨inputNumbers_ascending n, ?_, fun a ha b hb => ?_⟩
    · rw [List.pairwise_map]
      exact hplaces.imp fun hij => by omega
    · obtain ⟨entry, -, rfl⟩ := List.mem_map.1 hb
      rw [mem_inputNumbers] at ha
      omega
  refine h.sorted.eq_of_mem_iff hsorted fun k => ?_
  rw [List.mem_append, List.mem_map]
  constructor
  · intro hk
    have hbounds := h.bounds k hk
    by_cases hle : k ≤ n
    · exact .inl (mem_inputNumbers.2 ⟨hbounds.1, hle⟩)
    · have hlt : (k - n - 1).toNat < steps.length := by omega
      have hnumber : (n : Int) + (k - n - 1).toNat + 1 = k := by omega
      refine .inr ⟨(steps[(k - n - 1).toNat], (k - n - 1).toNat), ?_, hnumber⟩
      exact mem_kept.2 ⟨List.getElem?_eq_getElem hlt, by rwa [hnumber]⟩
  · rintro (hk | ⟨⟨step, i⟩, hentry, rfl⟩)
    · exact h.input k hk
    · exact (mem_kept.1 hentry).2

/-- The number kept at the place of a step is the step's old number. -/
theorem number_at (h : Selection n steps numbers) {t k : Nat} {step : Step}
    (ht : (kept steps n numbers)[t]? = some (step, k)) :
    numbers[n + t]? = some ((n : Int) + k + 1) := by
  have hlength : (inputNumbers n).length = n := by simp [inputNumbers]
  rw [h.numbers_eq, List.getElem?_append_right (by omega), hlength, Nat.add_sub_cancel_left,
    List.getElem?_map, ht]
  rfl

theorem length_eq (h : Selection n steps numbers) {short : List Step}
    (hshort : renumbered steps n numbers = .ok short) : numbers.length = n + short.length := by
  rw [h.numbers_eq, List.length_append, List.length_map, length_renumbered hshort]
  simp [inputNumbers]

/-- Renumbering keeps what is cited. -/
theorem cites_renumbered (h : Selection n steps numbers) {short : List Step}
    (hshort : renumbered steps n numbers = .ok short) {k p : Int} (hcite : Cites steps n k p)
    {a b : Nat} (ha : numbers[a]? = some k) (hb : numbers[b]? = some p) :
    Cites short n ((a : Int) + 1) ((b : Int) + 1) := by
  obtain ⟨step, hstep, hp⟩ := hcite
  obtain ⟨i₀, rfl, hi₀⟩ := stepAt?_eq_some_iff.1 hstep
  obtain ⟨t, ht⟩ := List.mem_iff_getElem?.1 (mem_kept.2 ⟨hi₀, List.mem_of_getElem? ha⟩)
  obtain rfl := eq_of_ascending h.sorted ha (h.number_at ht)
  obtain ⟨step', p', q', i, j, hshort', hparents, hi, hj, hparents'⟩ := parents_at hshort ht
  refine ⟨step', stepAt?_eq_some_iff.2 ⟨t, by omega, hshort'⟩, ?_⟩
  rw [hparents, List.mem_pair] at hp
  rw [hparents', List.mem_pair]
  rcases hp with rfl | rfl
  · exact .inl (by rw [eq_of_ascending h.sorted hb hi])
  · exact .inr (by rw [eq_of_ascending h.sorted hb hj])

/-- The steps kept stay in their order. -/
theorem place_lt_iff (h : Selection n steps numbers) {t t' k k' : Nat} {step step' : Step}
    (ht : (kept steps n numbers)[t]? = some (step, k))
    (ht' : (kept steps n numbers)[t']? = some (step', k')) : t < t' ↔ k < k' := by
  have horder := lt_iff_of_ascending h.sorted (h.number_at ht) (h.number_at ht')
  omega

/-- A clause is in front of a step exactly if it was in front of it in the whole derivation. -/
theorem front_iff (h : Selection n steps numbers) {t k : Nat} {step : Step}
    (ht : (kept steps n numbers)[t]? = some (step, k)) {i i₀ : Nat}
    (hi : numbers[i]? = some ((i₀ : Int) + 1)) : i < n + t ↔ i₀ < n + k := by
  rw [lt_iff_of_ascending h.sorted hi (h.number_at ht)]
  omega

theorem exists_place (h : Selection n steps numbers) {i : Nat} (hi : i < numbers.length) :
    ∃ i₀ : Nat, numbers[i]? = some ((i₀ : Int) + 1) := by
  have hbounds := h.bounds numbers[i] (List.getElem_mem hi)
  refine ⟨(numbers[i] - 1).toNat, ?_⟩
  rw [List.getElem?_eq_getElem hi, Int.toNat_of_nonneg (by omega), Int.sub_add_cancel]

/-- Place by place, the clauses that are kept are the clauses of the numbers. -/
theorem map_clauses_eq {cs : List Clause} (h : Selection cs.length steps numbers) :
    (cs ++ (kept steps cs.length numbers).map fun entry => entry.1.resolvent).map some =
      numbers.map fun k => (cs ++ steps.map Step.resolvent)[(k - 1).toNat]? := by
  have hinput : cs.map some =
      (inputNumbers cs.length).map fun k => (cs ++ steps.map Step.resolvent)[(k - 1).toNat]? := by
    refine List.ext_getElem (by simp [inputNumbers]) fun i hi _ => ?_
    rw [List.length_map] at hi
    simp [inputNumbers, List.getElem?_append_left hi]
  have hsteps : ∀ entry ∈ kept steps cs.length numbers, some entry.1.resolvent =
      (cs ++ steps.map Step.resolvent)[((cs.length : Int) + entry.2 + 1 - 1).toNat]? := by
    rintro ⟨step, k⟩ hentry
    have hplace : ((cs.length : Int) + k + 1 - 1).toNat = cs.length + k := by omega
    rw [hplace, List.getElem?_append_right (by omega), Nat.add_sub_cancel_left,
      List.getElem?_map, (mem_kept.1 hentry).1]
    rfl
  conv_rhs => rw [h.numbers_eq]
  rw [List.map_append, List.map_append, ← hinput, List.map_map, List.map_map]
  exact congrArg _ (List.map_congr_left hsteps)

theorem clause_at {cs : List Clause} (h : Selection cs.length steps numbers) {i k : Nat}
    (hi : numbers[i]? = some ((k : Int) + 1)) :
    (cs ++ (kept steps cs.length numbers).map fun entry => entry.1.resolvent)[i]? =
      (cs ++ steps.map Step.resolvent)[k]? := by
  have hmap := congrArg (·[i]?) h.map_clauses_eq
  simp only [List.getElem?_map, hi, Option.map_some, Int.add_sub_cancel, Int.toNat_natCast] at hmap
  obtain ⟨c, hc, hk⟩ := Option.map_eq_some_iff.1 hmap
  rw [hc, hk]

theorem clause_in_front {cs : List Clause} (h : Selection cs.length steps numbers)
    {short : List Step} (hshort : renumbered steps cs.length numbers = .ok short) {i k t : Nat}
    (hi : numbers[i]? = some ((k : Int) + 1)) (hlt : i < cs.length + t) :
    (cs ++ (short.take t).map Step.resolvent)[i]? = (cs ++ steps.map Step.resolvent)[k]? := by
  rw [← h.clause_at hi, ← map_resolvent_renumbered hshort, List.map_take,
    ← List.take_length_add_append, List.getElem?_take_of_lt hlt]

end Selection

end Derivation

end Resolution
