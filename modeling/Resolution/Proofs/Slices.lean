import Mathlib.Data.List.Sort
import Mathlib.Logic.Relation
import Resolution.Derivation
import Resolution.Proofs.Fallible

/-!
# What a clause rests on

`RestsOn` follows the parents of steps back from a clause, without regard to the order of the walk
or to what was seen before. A walk that succeeds has collected exactly the numbers met in this way,
and it does succeed if each of the steps met has two parents, both before it.
-/

namespace Resolution

/-- A step that a walk may pass: two parents, both before it. -/
def Step.CitesEarlier (step : Step) (number : Int) : Prop :=
  ∃ p q, step.parents = [p, q] ∧ p < number ∧ q < number

theorem Step.parentPair_eq_ok {step : Step} {p q : Int} :
    step.parentPair = .ok (p, q) ↔ step.parents = [p, q] := by
  unfold parentPair
  split
  · next p' q' h => simp [h]
  · next parents h =>
      constructor
      · intro hok
        cases hok
      · intro hparents
        exact absurd hparents (h p q)

namespace Derivation

/-- The step that produced the clause of the first number has the second among its parents. -/
def Cites (derivation : List Step) (numInput number parent : Int) : Prop :=
  ∃ step, stepAt? derivation numInput number = some step ∧ parent ∈ step.parents

def RestsOn (derivation : List Step) (numInput : Int) : Int → Int → Prop :=
  Relation.ReflTransGen (Cites derivation numInput)

theorem mem_inputNumbers {numInput k : Int} :
    k ∈ inputNumbers numInput ↔ 1 ≤ k ∧ k ≤ numInput := by
  rw [inputNumbers, List.mem_map]
  constructor
  · rintro ⟨i, hi, rfl⟩
    have hlt := List.mem_range.1 hi
    omega
  · intro h
    exact ⟨(k - 1).toNat, List.mem_range.2 (by omega), by omega⟩

theorem inputNumbers_ascending (numInput : Int) : (inputNumbers numInput).Pairwise (· < ·) := by
  rw [inputNumbers, List.pairwise_map]
  exact List.pairwise_lt_range.imp fun hij => by omega

variable {derivation : List Step} {numInput : Int}

/-- Input clauses were not derived. -/
theorem not_mem_inputNumbers_of_stepAt? {k : Int} {step : Step}
    (h : stepAt? derivation numInput k = some step) : k ∉ inputNumbers numInput := by
  have hlt := lt_of_stepAt?_eq_some h
  rw [mem_inputNumbers]
  omega

/-- A number met on a walk that is over, with what was seen at its end. -/
structure Explored (derivation : List Step) (numInput start : Int) (result : List Int) (k : Int) :
    Prop where
  rests : RestsOn derivation numInput start k
  derived : k ∉ inputNumbers numInput
  earlier : ∀ step, stepAt? derivation numInput k = some step → step.CitesEarlier k
  parents : ∀ p, Cites derivation numInput k p → p ∈ inputNumbers numInput ++ result

/-- A walk from a parent is part of the walk from the step, which sees as much or more. -/
theorem Explored.of_cites {number p k : Int} {result more : List Int}
    (h : Explored derivation numInput p result k) (hcite : Cites derivation numInput number p)
    (hmore : ∀ k ∈ result, k ∈ more) : Explored derivation numInput number more k where
  rests := h.rests.head hcite
  derived := h.derived
  earlier := h.earlier
  parents := by
    intro p hp
    rcases List.mem_append.1 (h.parents p hp) with hp | hp
    · exact List.mem_append_left _ hp
    · exact List.mem_append_right _ (hmore p hp)

/-- What a walk from a number makes of the numbers seen before. Those may include steps whose own
walk is not over, so only the numbers that the walk adds are explored. -/
structure Collected (derivation : List Step) (numInput number : Int) (seen result : List Int) :
    Prop where
  kept : ∀ k ∈ seen, k ∈ result
  found : number ∈ inputNumbers numInput ++ result
  new : ∀ k ∈ result, k ∈ seen ∨ Explored derivation numInput number result k
  nodup : seen.Nodup → result.Nodup

/-- The walk through a step: first from its second parent, then from its first. -/
theorem Collected.step {number p q : Int} {step : Step} {seen mid result : List Int}
    (hstep : stepAt? derivation numInput number = some step) (hparents : step.parents = [p, q])
    (hp : p < number) (hq : q < number) (hnew : number ∉ seen)
    (hleft : Collected derivation numInput q (number :: seen) mid)
    (hright : Collected derivation numInput p mid result) :
    Collected derivation numInput number seen result := by
  have hciteq : Cites derivation numInput number q := ⟨step, hstep, by simp [hparents]⟩
  have hcitep : Cites derivation numInput number p := ⟨step, hstep, by simp [hparents]⟩
  have hnumber : number ∈ result := hright.kept _ (hleft.kept _ List.mem_cons_self)
  have hself : Explored derivation numInput number result number := by
    refine ⟨.refl, not_mem_inputNumbers_of_stepAt? hstep, fun step' hstep' => ?_, fun k hk => ?_⟩
    · rw [← Option.some.inj (hstep.symm.trans hstep')]
      exact ⟨p, q, hparents, hp, hq⟩
    · obtain ⟨step', hstep', hk⟩ := hk
      rw [← Option.some.inj (hstep.symm.trans hstep'), hparents, List.mem_pair] at hk
      rcases hk with rfl | rfl
      · exact hright.found
      · rcases List.mem_append.1 hleft.found with hq | hq
        · exact List.mem_append_left _ hq
        · exact List.mem_append_right _ (hright.kept _ hq)
  refine ⟨fun k hk => ?_, List.mem_append_right _ hnumber, fun k hk => ?_, fun hnodup => ?_⟩
  · exact hright.kept k (hleft.kept k (List.mem_cons_of_mem _ hk))
  · rcases hright.new k hk with hk | hk
    · rcases hleft.new k hk with hk | hk
      · rcases List.mem_cons.1 hk with rfl | hk
        · exact .inr hself
        · exact .inl hk
      · exact .inr (hk.of_cites hciteq hright.kept)
    · exact .inr (hk.of_cites hcitep fun k hk => hk)
  · exact hright.nodup (hleft.nodup (List.nodup_cons.2 ⟨hnew, hnodup⟩))

theorem collected_of_collect {number : Int} {seen result : List Int}
    (h : collect derivation numInput number seen = .ok result) :
    Collected derivation numInput number seen result := by
  fun_induction collect derivation numInput number seen generalizing result with
  | case1 number seen hseen =>
      obtain rfl : seen = result := Except.ok.inj h
      refine ⟨fun k hk => hk, ?_, fun k hk => .inl hk, fun hnodup => hnodup⟩
      rw [List.mem_append, mem_inputNumbers]
      exact hseen
  | case2 number seen hseen hstep =>
      obtain rfl : number :: seen = result := Except.ok.inj h
      have hinput : number ∉ inputNumbers numInput := by
        rw [mem_inputNumbers]
        exact fun h => hseen (.inl h)
      have hnew : number ∉ seen := fun h => hseen (.inr h)
      refine ⟨fun k hk => List.mem_cons_of_mem _ hk, by simp, fun k hk => ?_,
        fun hnodup => List.nodup_cons.2 ⟨hnew, hnodup⟩⟩
      rcases List.mem_cons.1 hk with rfl | hk
      · exact .inr ⟨.refl, hinput, by simp [hstep], by simp [Cites, hstep]⟩
      · exact .inl hk
  | case3 => cases h
  | case4 => cases h
  | case5 => cases h
  | case6 number seen hseen step hstep p q hpair hlater mid hmid ihq ihp =>
      have hnew : number ∉ seen := fun h => hseen (.inr h)
      exact .step hstep (Step.parentPair_eq_ok.1 hpair) (by omega) (by omega) hnew (ihq hmid)
        (ihp h)

/-- A walk that meets only steps with two earlier parents succeeds. -/
theorem exists_collect_eq_ok {number : Int} (seen : List Int)
    (h : ∀ k, RestsOn derivation numInput number k → ∀ step,
      stepAt? derivation numInput k = some step → step.CitesEarlier k) :
    ∃ result, collect derivation numInput number seen = .ok result := by
  fun_induction collect derivation numInput number seen with
  | case1 => exact ⟨_, rfl⟩
  | case2 => exact ⟨_, rfl⟩
  | case3 number seen hseen step hstep e hpair =>
      obtain ⟨p, q, hparents, -, -⟩ := h number .refl step hstep
      rw [Step.parentPair_eq_ok.2 hparents] at hpair
      cases hpair
  | case4 number seen hseen step hstep p q hpair hlater =>
      obtain ⟨p', q', hparents, hp, hq⟩ := h number .refl step hstep
      rw [Step.parentPair_eq_ok.1 hpair] at hparents
      cases hparents
      omega
  | case5 number seen hseen step hstep p q hpair hlater e he ihq =>
      have hcite : Cites derivation numInput number q :=
        ⟨step, hstep, by simp [Step.parentPair_eq_ok.1 hpair]⟩
      obtain ⟨result, hresult⟩ := ihq fun k hk => h k (hk.head hcite)
      rw [he] at hresult
      cases hresult
  | case6 number seen hseen step hstep p q hpair hlater mid hmid _ ihp =>
      have hcite : Cites derivation numInput number p :=
        ⟨step, hstep, by simp [Step.parentPair_eq_ok.1 hpair]⟩
      exact ihp fun k hk => h k (hk.head hcite)

theorem Collected.explored {start k : Int} {result : List Int}
    (h : Collected derivation numInput start [] result) (hk : k ∈ result) :
    Explored derivation numInput start result k :=
  (h.new k hk).resolve_left List.not_mem_nil

theorem Collected.mem_of_restsOn {start k : Int} {result : List Int}
    (h : Collected derivation numInput start [] result) (hk : RestsOn derivation numInput start k) :
    k ∈ inputNumbers numInput ++ result := by
  induction hk with
  | refl => exact h.found
  | tail _ hcite ih =>
      have hderived := not_mem_inputNumbers_of_stepAt? hcite.choose_spec.1
      have hmem := (List.mem_append.1 ih).resolve_left hderived
      exact (h.explored hmem).parents _ hcite

/-- The numbers needed, ascending: the input and all that the start rests on. -/
theorem needed_eq_ok {start : Int} {numbers : List Int}
    (h : needed derivation numInput start = .ok numbers) :
    numbers.Pairwise (· < ·) ∧
      ∀ k, k ∈ numbers ↔ k ∈ inputNumbers numInput ∨ RestsOn derivation numInput start k := by
  obtain ⟨result, hcollect, hsort⟩ := Fallible.bind_eq_ok.1 h
  obtain rfl := Except.ok.inj hsort
  have hc := collected_of_collect hcollect
  have hinput : (inputNumbers numInput).Nodup :=
    (inputNumbers_ascending numInput).imp fun hlt => Int.ne_of_lt hlt
  have hdisjoint : (inputNumbers numInput).Disjoint result :=
    fun k hk hk' => (hc.explored hk').derived hk
  have hnodup := hinput.append (hc.nodup .nil) hdisjoint
  have hsorted := List.sortedLE_mergeSort.sortedLT_of_nodup
    ((List.mergeSort_perm (inputNumbers numInput ++ result) _).nodup_iff.2 hnodup)
  refine ⟨hsorted.pairwise, fun k => ?_⟩
  rw [List.mem_mergeSort]
  constructor
  · intro hk
    rcases List.mem_append.1 hk with hk | hk
    · exact .inl hk
    · exact .inr (hc.explored hk).rests
  · rintro (hk | hk)
    · exact List.mem_append_left _ hk
    · exact hc.mem_of_restsOn hk

/-- A walk that succeeds has looked at every step that it can reach. -/
theorem citesEarlier_of_needed {start k : Int} {numbers : List Int} {step : Step}
    (h : needed derivation numInput start = .ok numbers)
    (hk : RestsOn derivation numInput start k) (hstep : stepAt? derivation numInput k = some step) :
    step.CitesEarlier k := by
  obtain ⟨result, hcollect, -⟩ := Fallible.bind_eq_ok.1 h
  have hcollected := collected_of_collect hcollect
  have hmem := (List.mem_append.1 (hcollected.mem_of_restsOn hk)).resolve_left
    (not_mem_inputNumbers_of_stepAt? hstep)
  exact (hcollected.explored hmem).earlier step hstep

theorem le_of_restsOn {start k : Int} {numbers : List Int}
    (h : needed derivation numInput start = .ok numbers)
    (hk : RestsOn derivation numInput start k) : k ≤ start := by
  induction hk with
  | refl => exact Int.le_refl _
  | tail hrests hcite ih =>
      obtain ⟨step, hstep, hp⟩ := hcite
      obtain ⟨p, q, hparents, hlt, hlt'⟩ := citesEarlier_of_needed h hrests hstep
      rw [hparents, List.mem_pair] at hp
      omega

theorem exists_needed_eq_ok {start : Int}
    (h : ∀ k, RestsOn derivation numInput start k → ∀ step,
      stepAt? derivation numInput k = some step → step.CitesEarlier k) :
    ∃ numbers, needed derivation numInput start = .ok numbers := by
  obtain ⟨result, hresult⟩ := exists_collect_eq_ok [] h
  exact ⟨_, Fallible.bind_eq_ok.2 ⟨result, hresult, rfl⟩⟩

end Derivation

end Resolution
