import Mathlib.Order.Bounds.Defs
import Resolution.Proofs.Slices

/-!
# The walk back from a clause

A derivation that was read from a checkpoint may be malformed: its steps may cite themselves, later
clauses or clauses that do not exist, and have any number of parents. `Walk` tells how the slice of
such a derivation is collected, with the numbers still to be looked at on a stack. Every walk comes
to an end, since whatever a step puts on the stack is smaller than its own number. It fails exactly
if some step that it can reach has not two parents or cites itself or a later clause, and otherwise
it finds the least set of numbers that holds the start and the parents of its members.
-/

namespace Resolution

theorem Step.parentPair_eq_error {step : Step} {e : ParentCount} :
    step.parentPair = .error e ↔ step.parents.length ≠ 2 ∧ e = ⟨step.parents.length⟩ := by
  unfold parentPair
  split
  · next p q h => simp [h]
  · next parents h =>
      have hcount : step.parents.length ≠ 2 := by
        intro hlength
        obtain ⟨p, q, hparents⟩ := List.length_eq_two.1 hlength
        exact h p q hparents
      simp [hcount, eq_comm]

theorem Step.not_citesEarlier_iff {step : Step} {number : Int} :
    ¬step.CitesEarlier number ↔
      step.parents.length ≠ 2 ∨ ∃ p ∈ step.parents, number ≤ p := by
  constructor
  · intro h
    by_contra hnot
    rw [not_or, not_not, List.length_eq_two] at hnot
    obtain ⟨⟨p, q, hparents⟩, hlater⟩ := hnot
    refine h ⟨p, q, hparents, ?_, ?_⟩
    · exact Int.not_le.1 fun hle => hlater ⟨p, by simp [hparents], hle⟩
    · exact Int.not_le.1 fun hle => hlater ⟨q, by simp [hparents], hle⟩
  · intro h hcites
    obtain ⟨p, q, hparents, hp, hq⟩ := hcites
    simp only [hparents, List.length_cons, List.length_nil, List.mem_pair] at h
    rcases h with hcount | ⟨k, rfl | rfl, hle⟩
    · exact hcount rfl
    · omega
    · omega

namespace Derivation

variable {derivation : List Step} {numInput : Int}

/-- How the walk goes on from the numbers on the stack, the next one first, and the numbers seen, up
to the numbers seen at its end or to a failure. -/
inductive Walk (derivation : List Step) (numInput : Int) :
    List Int → List Int → Except SliceError (List Int) → Prop
  | done {seen : List Int} : Walk derivation numInput [] seen (.ok seen)
  | known {k : Int} {stack seen : List Int} {result : Except SliceError (List Int)}
      (hknown : (1 ≤ k ∧ k ≤ numInput) ∨ k ∈ seen)
      (walk : Walk derivation numInput stack seen result) :
      Walk derivation numInput (k :: stack) seen result
  | leaf {k : Int} {stack seen : List Int} {result : Except SliceError (List Int)}
      (hnew : ¬((1 ≤ k ∧ k ≤ numInput) ∨ k ∈ seen)) (hstep : stepAt? derivation numInput k = none)
      (walk : Walk derivation numInput stack (k :: seen) result) :
      Walk derivation numInput (k :: stack) seen result
  | parentCount {k : Int} {stack seen : List Int} {step : Step}
      (hnew : ¬((1 ≤ k ∧ k ≤ numInput) ∨ k ∈ seen))
      (hstep : stepAt? derivation numInput k = some step) (hcount : step.parents.length ≠ 2) :
      Walk derivation numInput (k :: stack) seen (.error (.parentCount ⟨step.parents.length⟩))
  | laterParent {k p q : Int} {stack seen : List Int} {step : Step}
      (hnew : ¬((1 ≤ k ∧ k ≤ numInput) ∨ k ∈ seen))
      (hstep : stepAt? derivation numInput k = some step) (hparents : step.parents = [p, q])
      (hlater : k ≤ p ∨ k ≤ q) :
      Walk derivation numInput (k :: stack) seen (.error (.laterParent k))
  | parents {k p q : Int} {stack seen : List Int} {step : Step}
      {result : Except SliceError (List Int)} (hnew : ¬((1 ≤ k ∧ k ≤ numInput) ∨ k ∈ seen))
      (hstep : stepAt? derivation numInput k = some step) (hparents : step.parents = [p, q])
      (hearlier : ¬(k ≤ p ∨ k ≤ q))
      (walk : Walk derivation numInput (q :: p :: stack) (k :: seen) result) :
      Walk derivation numInput (k :: stack) seen result

/-- The walk from one number, followed by the walk that the rest of the stack gives. -/
theorem Walk.of_collect {number : Int} {seen stack : List Int}
    {result : Except SliceError (List Int)}
    (hok : ∀ more, collect derivation numInput number seen = .ok more →
      Walk derivation numInput stack more result)
    (herror : ∀ e, collect derivation numInput number seen = .error e → result = .error e) :
    Walk derivation numInput (number :: stack) seen result := by
  fun_induction collect derivation numInput number seen generalizing stack result with
  | case1 number seen hseen => exact .known hseen (hok seen rfl)
  | case2 number seen hseen hstep => exact .leaf hseen hstep (hok _ rfl)
  | case3 number seen hseen step hstep e hpair =>
      obtain ⟨hcount, rfl⟩ := Step.parentPair_eq_error.1 hpair
      rw [herror _ rfl]
      exact .parentCount hseen hstep hcount
  | case4 number seen hseen step hstep p q hpair hlater =>
      rw [herror _ rfl]
      exact .laterParent hseen hstep (Step.parentPair_eq_ok.1 hpair) hlater
  | case5 number seen hseen step hstep p q hpair hlater e he ihq =>
      rw [he] at ihq
      refine .parents hseen hstep (Step.parentPair_eq_ok.1 hpair) hlater (ihq ?_ ?_)
      · intro more hmore
        cases hmore
      · intro e' he'
        obtain rfl := Except.error.inj he'
        exact herror _ rfl
  | case6 number seen hseen step hstep p q hpair hlater mid hmid ihq ihp =>
      rw [hmid] at ihq
      refine .parents hseen hstep (Step.parentPair_eq_ok.1 hpair) hlater (ihq ?_ ?_)
      · intro more hmore
        obtain rfl := Except.ok.inj hmore
        exact ihp hok herror
      · intro e he
        cases he

section

variable {k p q : Int} {seen : List Int} {step : Step}
  (hnew : ¬((1 ≤ k ∧ k ≤ numInput) ∨ k ∈ seen))

include hnew

theorem collect_leaf (hstep : stepAt? derivation numInput k = none) :
    collect derivation numInput k seen = .ok (k :: seen) := by
  rw [collect, if_neg hnew]
  split
  · rfl
  · next step' hstep' => simp [hstep] at hstep'

theorem collect_parentCount (hstep : stepAt? derivation numInput k = some step)
    (hcount : step.parents.length ≠ 2) :
    collect derivation numInput k seen = .error (.parentCount ⟨step.parents.length⟩) := by
  rw [collect, if_neg hnew]
  split
  · next hstep' => simp [hstep] at hstep'
  · next step' hstep' =>
      obtain rfl := Option.some.inj (hstep.symm.trans hstep')
      rw [Step.parentPair_eq_error.2 ⟨hcount, rfl⟩]

/-- The walk through a step that has two parents. -/
theorem collect_parents (hstep : stepAt? derivation numInput k = some step)
    (hparents : step.parents = [p, q]) :
    collect derivation numInput k seen =
      if k ≤ p ∨ k ≤ q then .error (.laterParent k)
      else collect derivation numInput q (k :: seen) >>= collect derivation numInput p := by
  rw [collect, if_neg hnew]
  split
  · next hstep' => simp [hstep] at hstep'
  · next step' hstep' =>
      obtain rfl := Option.some.inj (hstep.symm.trans hstep')
      rw [Step.parentPair_eq_ok.2 hparents]
      dsimp only
      split
      · rfl
      · cases collect derivation numInput q (k :: seen) <;> rfl

end

theorem Walk.result_eq {stack seen : List Int} {result : Except SliceError (List Int)}
    (h : Walk derivation numInput stack seen result) :
    result = stack.foldlM (fun seen number => collect derivation numInput number seen) seen := by
  induction h with
  | done => rfl
  | known hknown _ ih =>
      rw [List.foldlM_cons, collect, if_pos hknown]
      exact ih
  | leaf hnew hstep _ ih =>
      rw [List.foldlM_cons, collect_leaf hnew hstep]
      exact ih
  | parentCount hnew hstep hcount =>
      rw [List.foldlM_cons, collect_parentCount hnew hstep hcount]
      rfl
  | laterParent hnew hstep hparents hlater =>
      rw [List.foldlM_cons, collect_parents hnew hstep hparents, if_pos hlater]
      rfl
  | parents hnew hstep hparents hearlier _ ih =>
      rw [List.foldlM_cons, collect_parents hnew hstep hparents, if_neg hearlier, bind_assoc, ih,
        List.foldlM_cons]
      simp only [List.foldlM_cons]

/-- From the start the walk comes to an end, and in one way only. -/
theorem walk_iff {start : Int} {result : Except SliceError (List Int)} :
    Walk derivation numInput [start] [] result ↔
      result = collect derivation numInput start [] := by
  constructor
  · intro h
    rw [h.result_eq, List.foldlM_cons]
    simp only [List.foldlM_nil, bind_pure]
  · rintro rfl
    refine .of_collect (fun more hmore => ?_) fun e he => he
    rw [hmore]
    exact .done

/-- What is wrong with the step that produced the clause of a number. -/
inductive Faulty (derivation : List Step) (numInput number : Int) : SliceError → Prop
  | parentCount {step : Step} (hstep : stepAt? derivation numInput number = some step)
      (hcount : step.parents.length ≠ 2) :
      Faulty derivation numInput number (.parentCount ⟨step.parents.length⟩)
  | laterParent {step : Step} {p : Int} (hstep : stepAt? derivation numInput number = some step)
      (hp : p ∈ step.parents) (hlater : number ≤ p) :
      Faulty derivation numInput number (.laterParent number)

theorem exists_faulty_of_collect {number : Int} {seen : List Int} {e : SliceError}
    (h : collect derivation numInput number seen = .error e) :
    ∃ k, RestsOn derivation numInput number k ∧ Faulty derivation numInput k e := by
  fun_induction collect derivation numInput number seen with
  | case1 => cases h
  | case2 => cases h
  | case3 number seen hseen step hstep e' hpair =>
      obtain ⟨hcount, rfl⟩ := Step.parentPair_eq_error.1 hpair
      obtain rfl := Except.error.inj h
      exact ⟨number, .refl, .parentCount hstep hcount⟩
  | case4 number seen hseen step hstep p q hpair hlater =>
      have hparents := Step.parentPair_eq_ok.1 hpair
      obtain rfl := Except.error.inj h
      refine ⟨number, .refl, ?_⟩
      rcases hlater with hlater | hlater
      · exact .laterParent hstep (by simp [hparents]) hlater
      · exact .laterParent hstep (by simp [hparents]) hlater
  | case5 number seen hseen step hstep p q hpair hlater e' he' ihq =>
      have hcite : Cites derivation numInput number q :=
        ⟨step, hstep, by simp [Step.parentPair_eq_ok.1 hpair]⟩
      obtain rfl := Except.error.inj h
      obtain ⟨k, hk, hfault⟩ := ihq he'
      exact ⟨k, hk.head hcite, hfault⟩
  | case6 number seen hseen step hstep p q hpair hlater mid hmid _ ihp =>
      have hcite : Cites derivation numInput number p :=
        ⟨step, hstep, by simp [Step.parentPair_eq_ok.1 hpair]⟩
      obtain ⟨k, hk, hfault⟩ := ihp h
      exact ⟨k, hk.head hcite, hfault⟩

theorem exists_faulty_of_needed {start : Int} {e : SliceError}
    (h : needed derivation numInput start = .error e) :
    ∃ k, RestsOn derivation numInput start k ∧ Faulty derivation numInput k e := by
  cases hcollect : collect derivation numInput start [] with
  | ok seen =>
      rw [needed, hcollect] at h
      cases h
  | error e' =>
      rw [needed, hcollect] at h
      obtain rfl : e' = e := Except.error.inj h
      exact exists_faulty_of_collect hcollect

theorem needed_fails_iff {start : Int} :
    (∃ e, needed derivation numInput start = .error e) ↔
      ∃ k, RestsOn derivation numInput start k ∧
        ∃ step, stepAt? derivation numInput k = some step ∧ ¬step.CitesEarlier k := by
  constructor
  · rintro ⟨e, he⟩
    obtain ⟨k, hk, hfault⟩ := exists_faulty_of_needed he
    cases hfault with
    | parentCount hstep hcount => exact ⟨k, hk, _, hstep, Step.not_citesEarlier_iff.2 (.inl hcount)⟩
    | laterParent hstep hp hlater =>
        exact ⟨k, hk, _, hstep, Step.not_citesEarlier_iff.2 (.inr ⟨_, hp, hlater⟩)⟩
  · rintro ⟨k, hk, step, hstep, hnot⟩
    cases hneeded : needed derivation numInput start with
    | error e => exact ⟨e, rfl⟩
    | ok numbers => exact absurd (citesEarlier_of_needed hneeded hk hstep) hnot

theorem restsOn_isLeast (derivation : List Step) (numInput start : Int) :
    IsLeast
      {S : Set Int | start ∈ S ∧ ∀ k ∈ S, ¬(1 ≤ k ∧ k ≤ numInput) →
        ∀ step, stepAt? derivation numInput k = some step → ∀ p ∈ step.parents, p ∈ S}
      {k | RestsOn derivation numInput start k} := by
  constructor
  · refine ⟨.refl, fun k hk _ step hstep p hp => ?_⟩
    exact Relation.ReflTransGen.tail hk ⟨step, hstep, hp⟩
  · rintro S ⟨hstart, hclosed⟩ k hk
    induction hk with
    | refl => exact hstart
    | tail _ hcite ih =>
        obtain ⟨step, hstep, hp⟩ := hcite
        have hderived := not_mem_inputNumbers_of_stepAt? hstep
        rw [mem_inputNumbers] at hderived
        exact hclosed _ ih hderived step hstep _ hp

/-- The slice of any derivation, whatever it cites, from any start. What the start rests on is the
least set that holds it and the parents of each step in it. The walk comes to an end in one way. It
fails exactly if a step of this set has not two parents or cites itself or a later clause, and the
failure then tells what is wrong with such a step. Otherwise it gives the numbers of the input and
of the set, ascending. -/
theorem needed_backward_slice (derivation : List Step) (numInput start : Int) :
    IsLeast
        {S : Set Int | start ∈ S ∧ ∀ k ∈ S, ¬(1 ≤ k ∧ k ≤ numInput) →
          ∀ step, stepAt? derivation numInput k = some step → ∀ p ∈ step.parents, p ∈ S}
        {k | RestsOn derivation numInput start k} ∧
      (∀ result, Walk derivation numInput [start] [] result ↔
        result = collect derivation numInput start []) ∧
      ((∃ e, needed derivation numInput start = .error e) ↔
        ∃ k, RestsOn derivation numInput start k ∧
          ∃ step, stepAt? derivation numInput k = some step ∧
            (step.parents.length ≠ 2 ∨ ∃ p ∈ step.parents, k ≤ p)) ∧
      match needed derivation numInput start with
      | .error e => ∃ k, RestsOn derivation numInput start k ∧ Faulty derivation numInput k e
      | .ok numbers => numbers.Pairwise (· < ·) ∧
          ∀ k, k ∈ numbers ↔ (1 ≤ k ∧ k ≤ numInput) ∨ RestsOn derivation numInput start k := by
  refine ⟨restsOn_isLeast derivation numInput start, fun result => walk_iff, ?_, ?_⟩
  · simp only [needed_fails_iff, Step.not_citesEarlier_iff]
  · split
    · next e he => exact exists_faulty_of_needed he
    · next numbers hnumbers =>
        obtain ⟨hsorted, hmem⟩ := needed_eq_ok hnumbers
        refine ⟨hsorted, fun k => ?_⟩
        rw [hmem, mem_inputNumbers]

end Derivation

end Resolution
