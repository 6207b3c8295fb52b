import Mathlib.Data.List.Induction
import Resolution.Proofs.Outcomes
import Resolution.Proofs.Selections

/-!
# A minimized derivation is a derivation

The slice of a derivation that the search has recorded is a selection of its steps. Renumbered, each
step resolves the same two clauses as before, and they still stand before its own; so what is left
grows from the input as the whole derivation did. In the slice of a refutation each step but the
last is there because a later one cites it.
-/

namespace Resolution

open Resolution.Derivation

namespace Growth

variable {cs : List Clause} {steps : List Step}

/-- It is enough to look at each step with the clauses before it. -/
theorem of_extends
    (h : ∀ (i : Nat) (step : Step), steps[i]? = some step →
      step.Extends (cs ++ (steps.take i).map Step.resolvent)) : Growth cs steps := by
  induction steps using List.reverseRecOn with
  | nil => exact .nil
  | append_singleton steps last ih =>
      refine .snoc (ih fun i step hi => ?_) ?_
      · have hlt : i < steps.length := (List.getElem?_eq_some_iff.1 hi).choose
        have hext := h i step (by rwa [List.getElem?_append_left hlt])
        rwa [List.take_append_of_le_length (Nat.le_of_lt hlt)] at hext
      · have hext := h steps.length last List.getElem?_concat_length
        rwa [List.take_left] at hext

theorem cites_bounds (h : Growth cs steps) {k p : Int} (hcite : Cites steps cs.length k p) :
    1 ≤ p ∧ p < k := by
  obtain ⟨step, hstep, hp⟩ := hcite
  obtain ⟨i, rfl, hi⟩ := stepAt?_eq_some_iff.1 hstep
  obtain ⟨a, b, c, d, hab, hb, -, -, r, -, rfl⟩ := h.origin_at hi
  rw [Resolvent.parents_step, List.mem_pair] at hp
  omega

theorem citesEarlier (h : Growth cs steps) {k : Int} {step : Step}
    (hstep : stepAt? steps cs.length k = some step) : step.CitesEarlier k := by
  obtain ⟨i, rfl, hi⟩ := stepAt?_eq_some_iff.1 hstep
  obtain ⟨a, b, c, d, hab, hb, -, -, r, -, rfl⟩ := h.origin_at hi
  exact ⟨_, _, rfl, by omega, by omega⟩

theorem selection (h : Growth cs steps) {start : Int} (hstart : 1 ≤ start)
    (hle : start ≤ cs.length + steps.length) {numbers : List Int}
    (hneeded : needed steps cs.length start = .ok numbers) :
    Selection cs.length steps numbers :=
  .of_needed hneeded hstart hle fun _ _ _ hcite => (h.cites_bounds hcite).1

end Growth

namespace Derivation.Selection

variable {cs : List Clause} {steps : List Step} {numbers : List Int}

/-- A step before and after: it resolves the same two clauses in the same way, named by their old
places among all clauses and by their new places among the clauses kept. -/
inductive Moved (all : List Clause) (numbers : List Int) (place : Nat) : Step → Step → Prop
  | mk {i j i' j' : Nat} {c d : Clause} {r : Resolvent} (hij : i < j) (hj : j < place)
      (hc : all[i]? = some c) (hd : all[j]? = some d) (hr : r ∈ c.resolve d)
      (hi' : numbers[i']? = some ((i : Int) + 1)) (hj' : numbers[j']? = some ((j : Int) + 1)) :
      Moved all numbers place (r.step i j) (r.step i' j')

theorem exists_moved (h : Selection cs.length steps numbers) (hgrowth : Growth cs steps) {k : Nat}
    {step : Step} (hentry : (step, k) ∈ kept steps cs.length numbers) :
    ∃ step', renumberStep numbers step = .ok step' ∧
      Moved (cs ++ steps.map Step.resolvent) numbers (cs.length + k) step step' := by
  obtain ⟨hk, hmem⟩ := mem_kept.1 hentry
  obtain ⟨i, j, c, d, hij, hj, hc, hd, r, hr, rfl⟩ := hgrowth.origin_at hk
  have hstep : stepAt? steps cs.length ((cs.length : Int) + k + 1) = some (r.step i j) :=
    stepAt?_eq_some_iff.2 ⟨k, rfl, hk⟩
  have hparent : ∀ p ∈ (r.step i j).parents, p ∈ numbers :=
    fun p hp => h.parents _ hmem p ⟨_, hstep, hp⟩
  obtain ⟨i', hi'⟩ := List.mem_iff_getElem?.1 (hparent ((i : Int) + 1) (by simp))
  obtain ⟨j', hj'⟩ := List.mem_iff_getElem?.1 (hparent ((j : Int) + 1) (by simp))
  exact ⟨r.step i' j', renumberStep_eq_ok h.sorted rfl hi' hj', .mk hij hj hc hd hr hi' hj'⟩

section Renumbered

variable (h : Selection cs.length steps numbers) (hgrowth : Growth cs steps) {short : List Step}
  (hshort : renumbered steps cs.length numbers = .ok short)

include h hgrowth hshort

/-- What stands at a place of the renumbered steps. -/
theorem renumbered_at {t : Nat} {step' : Step} (ht : short[t]? = some step') :
    ∃ step k, (kept steps cs.length numbers)[t]? = some (step, k) ∧
      Moved (cs ++ steps.map Step.resolvent) numbers (cs.length + k) step step' := by
  obtain ⟨⟨step, k⟩, hkept, hstep'⟩ := (Fallible.getElem?_of_mapM hshort).1 ht
  obtain ⟨step'', hstep'', hmoved⟩ := h.exists_moved hgrowth (List.mem_of_getElem? hkept)
  obtain rfl : step' = step'' := Except.ok.inj (hstep'.symm.trans hstep'')
  exact ⟨step, k, hkept, hmoved⟩

/-- The clauses in front of a step are among those that were in front of it before, so what was new
there is new. -/
theorem growth_renumbered : Growth cs short := by
  refine Growth.of_extends fun t step' ht => ?_
  obtain ⟨step, k, hkept, hmoved⟩ := renumbered_at h hgrowth hshort ht
  have hold := hgrowth.extends_at (of_kept_at hkept).1
  obtain @⟨i, j, i', j', c, d, r, hij, hj, hc, hd, hr, hi', hj'⟩ := hmoved
  constructor
  · have hij' : i' < j' := (lt_iff_of_ascending h.sorted hi' hj').2 (by omega)
    have hj't : j' < cs.length + t := (h.front_iff hkept hj').2 hj
    have hi't : i' < cs.length + t := Nat.lt_trans hij' hj't
    have hc' := (h.clause_in_front hshort hi' hi't).trans hc
    have hd' := (h.clause_in_front hshort hj' hj't).trans hd
    exact ⟨i', j', c, d, hij', hc', hd', r, hr, rfl⟩
  · exact hold.not_tautology
  · intro e he
    obtain ⟨m, hm⟩ := List.mem_iff_getElem?.1 he
    have hmt : m < cs.length + t := by
      have hlt := (List.getElem?_eq_some_iff.1 hm).choose
      rw [List.length_append, List.length_map, List.length_take] at hlt
      omega
    have hmn : m < numbers.length := by
      have hlt := (List.getElem?_eq_some_iff.1 (h.number_at hkept)).choose
      omega
    obtain ⟨m₀, hm₀⟩ := h.exists_place hmn
    refine hold.new e (List.mem_of_getElem? (i := m₀) ?_)
    rw [List.map_take, ← List.take_length_add_append,
      List.getElem?_take_of_lt ((h.front_iff hkept hm₀).1 hmt), ← h.clause_in_front hshort hm₀ hmt]
    exact hm

theorem exists_renumbered_at {t k : Nat} {step : Step}
    (ht : (kept steps cs.length numbers)[t]? = some (step, k)) :
    ∃ step', short[t]? = some step' ∧ step'.resolvent = step.resolvent := by
  obtain ⟨step', hstep', -⟩ := h.exists_moved hgrowth (List.mem_of_getElem? ht)
  exact ⟨step', (Fallible.getElem?_of_mapM hshort).2 ⟨_, ht, hstep'⟩,
    resolvent_renumberStep hstep'⟩

end Renumbered

end Derivation.Selection

theorem Growth.exists_minimize {cs : List Clause} {steps : List Step} (h : Growth cs steps)
    {start : Int} (hstart : 1 ≤ start) (hle : start ≤ cs.length + steps.length) :
    ∃ numbers short, needed steps cs.length start = .ok numbers ∧
      Selection cs.length steps numbers ∧ renumbered steps cs.length numbers = .ok short := by
  have hearlier : ∀ k, RestsOn steps cs.length start k → ∀ step,
      stepAt? steps cs.length k = some step → step.CitesEarlier k :=
    fun k _ step hstep => h.citesEarlier hstep
  obtain ⟨numbers, hneeded⟩ := exists_needed_eq_ok hearlier
  have hselection := h.selection hstart hle hneeded
  obtain ⟨short, hshort⟩ := exists_renumbered_of_needed hneeded
  exact ⟨numbers, short, hneeded, hselection, hshort⟩

namespace Derivation.Selection

section LastStep

variable {cs : List Clause} {steps : List Step} {numbers : List Int} {short : List Step}
  (h : Selection cs.length steps numbers) (hgrowth : Growth cs steps)
  (hneeded : needed steps cs.length (cs.length + steps.length : Nat) = .ok numbers)
  (hshort : renumbered steps cs.length numbers = .ok short)

include h hgrowth hneeded hshort

/-- A slice that starts from the last step ends with it, for a step behind it would have a greater
number. -/
theorem getLast?_renumbered {front : List Step} {step : Step} (hsteps : steps = front ++ [step]) :
    ∃ last, short.getLast? = some last ∧ last.resolvent = step.resolvent := by
  have hstep : steps[front.length]? = some step := by simp [hsteps]
  have hlength : steps.length = front.length + 1 := by simp [hsteps]
  have hmem : (cs.length : Int) + front.length + 1 ∈ numbers := by
    have hstart := ((needed_eq_ok hneeded).2 _).2 (.inr .refl)
    rwa [show (((cs.length + steps.length : Nat)) : Int) = cs.length + front.length + 1 by omega]
      at hstart
  obtain ⟨t, ht⟩ := List.mem_iff_getElem?.1 (mem_kept.2 ⟨hstep, hmem⟩)
  obtain ⟨last, hlast, hresolvent⟩ := h.exists_renumbered_at hgrowth hshort ht
  refine ⟨last, ?_, hresolvent⟩
  have hend : short.length = t + 1 := by
    have hlt := (List.getElem?_eq_some_iff.1 hlast).choose
    by_contra hne
    have hnext : short[t + 1]? = some short[t + 1] := List.getElem?_eq_getElem (by omega)
    obtain ⟨step', k, hkept, -⟩ := h.renumbered_at hgrowth hshort hnext
    have horder := h.place_lt_iff ht hkept
    have hk := (List.getElem?_eq_some_iff.1 (of_kept_at hkept).1).choose
    omega
  rw [List.getLast?_eq_getElem?, hend]
  exact hlast

/-- Every step of the slice but the last is cited by a later one. -/
theorem exists_citing {t : Nat} (ht : t + 1 < short.length) :
    ∃ t' later, t < t' ∧ short[t']? = some later ∧ (cs.length : Int) + t + 1 ∈ later.parents := by
  obtain ⟨-, hmem⟩ := needed_eq_ok hneeded
  have hthis : short[t]? = some short[t] := List.getElem?_eq_getElem (by omega)
  have hnext : short[t + 1]? = some short[t + 1] := List.getElem?_eq_getElem ht
  obtain ⟨step, k, hkept, -⟩ := h.renumbered_at hgrowth hshort hthis
  obtain ⟨step', k', hkept', -⟩ := h.renumbered_at hgrowth hshort hnext
  have hne : (cs.length : Int) + k + 1 ≠ (cs.length + steps.length : Nat) := by
    have horder := h.place_lt_iff hkept hkept'
    have hk' := (List.getElem?_eq_some_iff.1 (of_kept_at hkept').1).choose
    omega
  obtain ⟨-, hrests⟩ := restsOn_of_mem_kept hneeded (List.mem_of_getElem? hkept)
  obtain heq | ⟨b, hb, citing, hciting, hparent⟩ := Relation.ReflTransGen.cases_tail hrests
  · exact absurd heq hne
  · obtain ⟨a, ha⟩ := List.mem_iff_getElem?.1 ((hmem b).2 (.inr hb))
    have hcite : Cites steps cs.length b ((cs.length : Int) + k + 1) := ⟨citing, hciting, hparent⟩
    obtain ⟨later, hlater, hcited⟩ := h.cites_renumbered hshort hcite ha (h.number_at hkept)
    obtain ⟨t', hplace, hlater'⟩ := stepAt?_eq_some_iff.1 hlater
    have horder := lt_iff_of_ascending h.sorted (h.number_at hkept) ha
    have hbounds := hgrowth.cites_bounds hcite
    rw [Int.natCast_add] at hcited
    exact ⟨t', later, by omega, hlater', hcited⟩

end LastStep

end Derivation.Selection

/-- Steps that refute the input by themselves, with nothing to spare. Each records a resolvent of
two clauses, of the input or of these steps, that stand before its own; the last one gives the empty
clause, and no other clause is empty; each but the last is a parent of a later one. -/
structure SelfContained (input : List Clause) (short : List Step) : Prop where
  accepted : ∀ (i : Nat) (step : Step), short[i]? = some step →
    step.AcceptedAt (input ++ short.map Step.resolvent) (input.length + i)
  refutes : ∃ front last, short = front ++ [last] ∧ last.resolvent.isEmpty = true ∧
    ∀ c ∈ input ++ front.map Step.resolvent, c.isEmpty = false
  cited : ∀ i : Nat, i + 1 < short.length → ∃ (j : Nat) (later : Step), i < j ∧
    short[j]? = some later ∧ (input.length : Int) + i + 1 ∈ later.parents

namespace ProofState

/-- The derivation of a state that grew from an input can be minimized once it ends with the empty
clause. -/
theorem GrownFrom.exists_minimized {input : List Clause} {s : ProofState} (h : s.GrownFrom input)
    (hs : s.isRefuted = true) :
    ∃ short, minimize s.derivation s.numInput s.emptyClauseNumber? = .ok short ∧
      Growth input short ∧ SelfContained input short := by
  obtain ⟨before, step, hderivation, hempty⟩ := isRefuted_iff.1 hs
  have hlength : s.clauses.length = input.length + s.derivation.length := by
    rw [h.clauses, List.length_append, List.length_map]
  have hpos : 0 < s.derivation.length := by simp [hderivation]
  have hstart : (1 : Int) ≤ (input.length + s.derivation.length : Nat) := by omega
  have hle : ((input.length + s.derivation.length : Nat) : Int) ≤
      input.length + s.derivation.length := by omega
  obtain ⟨numbers, short, hneeded, hselection, hshort⟩ := h.growth.exists_minimize hstart hle
  have hgrowth : Growth input short := hselection.growth_renumbered h.growth hshort
  refine ⟨short, ?_, hgrowth, fun i step hi => hgrowth.acceptedAt hi, ?_,
    fun i hi => hselection.exists_citing h.growth hneeded hshort hi⟩
  · rw [h.numInput, h.emptyClauseNumber?_eq hs, hlength]
    exact minimize_eq_ok.2 ⟨numbers, hneeded, hshort⟩
  · obtain ⟨last, hlast, hresolvent⟩ :=
      hselection.getLast?_renumbered h.growth hneeded hshort hderivation
    obtain ⟨front, rfl⟩ := List.getLast?_eq_some_iff.1 hlast
    have hempty' : last.resolvent.isEmpty = true := by rwa [hresolvent]
    exact ⟨front, last, rfl, hempty', hgrowth.isEmpty_before_last hempty'⟩

/-- The derivation of a search that ends refuted can be minimized, and the result is a proof by
itself. -/
theorem minimized_refutation (input : List Clause) (limit : Option Int)
    (h : ((ofClauses input).run limit).state.haltReason = HaltReason.refuted) :
    let s := ((ofClauses input).run limit).state
    ∃ short, minimize s.derivation s.numInput s.emptyClauseNumber? = .ok short ∧
      SelfContained input short := by
  intro s
  have hgrown : s.GrownFrom input := (grownFrom_ofClauses input).run limit
  have hs : s.isRefuted = true := (isRefuted_run_iff input limit).2 h
  obtain ⟨short, hminimize, -, hcontained⟩ := hgrown.exists_minimized hs
  exact ⟨short, hminimize, hcontained⟩

/-- Of the four steps from `P`, `¬P V Q`, `¬P V R` and `¬R`, the first two are not needed. -/
theorem minimized_refutation_four_steps :
    let input : List Clause := [⟨[⟨"P", [], false⟩]⟩, ⟨[⟨"P", [], true⟩, ⟨"Q", [], false⟩]⟩,
      ⟨[⟨"P", [], true⟩, ⟨"R", [], false⟩]⟩, ⟨[⟨"R", [], true⟩]⟩]
    let s := ((ofClauses input).run none).state
    s.haltReason = HaltReason.refuted ∧
      s.derivation.map Step.parents = [[1, 2], [1, 3], [3, 4], [1, 7]] ∧
      ∃ short, minimize s.derivation s.numInput s.emptyClauseNumber? = .ok short ∧
        SelfContained input short := by
  intro input s
  have hrun : s = (ofClauses input).pass.state.pass.state := by
    subst s
    rw [run_of_running rfl rfl, run_of_running (by decide +kernel) rfl,
      run_of_halted _ (by decide +kernel)]
  have h : s.haltReason = HaltReason.refuted := by
    rw [hrun]
    decide +kernel
  have hparents : s.derivation.map Step.parents = [[1, 2], [1, 3], [3, 4], [1, 7]] := by
    rw [hrun]
    decide +kernel
  exact ⟨h, hparents, minimized_refutation input none h⟩

end ProofState

end Resolution
