import Mathlib.Control.Monad.Cont
import Resolution.Proofs.Fallible
import Resolution.Proofs.Growth
import Resolution.Proofs.Interpretations
import Resolution.Report

/-!
# What a verdict means

Every clause that a search holds is true wherever the input is, since it grew from the input by
resolution. The report ends with the verdict on the last step of the derivation. Together: a report
that ends with the line of success is about clauses without a model.
-/

namespace Resolution

universe u

theorem Growth.models {D : Type u} {I : Interpretation D} {cs : List Clause} {steps : List Step}
    (h : Growth cs steps) (hcs : ∀ c ∈ cs, I.Models c) :
    ∀ c ∈ cs ++ steps.map Step.resolvent, I.Models c := by
  induction h with
  | nil => simpa using hcs
  | @snoc steps step _ hstep ih =>
      intro c hc
      rw [List.map_append, ← List.append_assoc, List.mem_append] at hc
      rcases hc with hc | hc
      · exact ih c hc
      · obtain ⟨i, j, a, b, -, hi, hj, r, hr, rfl⟩ := hstep.origin
        obtain rfl : c = r.clause := List.mem_singleton.1 hc
        exact (ih a (List.mem_of_getElem? hi)).resolvent (ih b (List.mem_of_getElem? hj)) hr

/-- A search that holds the empty clause started from clauses without a model. -/
theorem ProofState.GrownFrom.unsatisfiable {input : List Clause} {s : ProofState}
    (h : s.GrownFrom input) {c : Clause} (hc : c ∈ s.clauses) (hempty : c.isEmpty = true) :
    Unsatisfiable.{u} input := by
  refine unsatisfiable_of_forall_not_models fun D _ I hinput => ?_
  rw [h.clauses] at hc
  exact Interpretation.not_models_of_isEmpty hempty (h.growth.models hinput c hc)

theorem ProofState.GrownFrom.exists_isEmpty_of_isRefuted {input : List Clause} {s : ProofState}
    (h : s.GrownFrom input) (hs : s.isRefuted = true) : ∃ c ∈ s.clauses, c.isEmpty = true := by
  cases hlast : s.derivation.getLast? with
  | none => simp [isRefuted, hlast] at hs
  | some step =>
      refine ⟨step.resolvent, ?_, by simpa [isRefuted, hlast] using hs⟩
      rw [h.clauses]
      exact List.mem_append_right _ (List.mem_map_of_mem (List.mem_of_getLast? hlast))

namespace Report

/-- What stands behind the last line feed. -/
def lastLine (text : String) : String :=
  String.ofList (text.toList.reverse.takeWhile (· ≠ '\n')).reverse

theorem lastLine_append {line : String} (h : '\n' ∉ line.toList) (front : String) :
    lastLine (front ++ "\n" ++ line) = line := by
  have hall : ∀ c ∈ line.toList.reverse, decide (c ≠ '\n') = true := by
    intro c hc
    have hne : c ≠ '\n' := fun e => h (e ▸ List.mem_reverse.1 hc)
    simpa using hne
  have hlist : (front ++ "\n" ++ line).toList.reverse =
      line.toList.reverse ++ '\n' :: front.toList.reverse := by
    simp [String.toList_append]
  rw [lastLine, hlist, List.takeWhile_append_of_pos hall]
  simp

theorem lines_eq_append_verdict {s : ProofState} {fullLog : Bool} {ls : List String}
    (h : lines s fullLog = .ok ls) : ∃ front, front ≠ [] ∧ ls = front ++ [verdict s] := by
  obtain ⟨section₂, -, hls⟩ := Fallible.bind_eq_ok.1 h
  refine ⟨[clausesHeader] ++ inputLines s ++ ["", derivationHeader] ++ section₂ ++
    ["", resultHeader], by simp, ?_⟩
  rw [← Except.ok.inj hls]
  simp

theorem lineFeed_not_mem_verdict (s : ProofState) : '\n' ∉ (verdict s).toList := by
  unfold verdict
  split
  · decide
  · split <;> decide

theorem verdict_eq_proved_iff {s : ProofState} : verdict s = proved ↔ s.isRefuted = true := by
  constructor
  · intro h
    by_contra hs
    have hdistinct : stopped ≠ proved ∧ notProved ≠ proved := by decide
    unfold verdict at h
    rw [if_neg hs] at h
    split at h
    · exact hdistinct.1 h
    · exact hdistinct.2 h
  · intro h
    rw [verdict, if_pos h]

theorem verdict_eq_stopped_iff {s : ProofState} :
    verdict s = stopped ↔ s.isRefuted = false ∧ s.haltReason = HaltReason.passLimit := by
  have hdistinct : proved ≠ stopped ∧ notProved ≠ stopped := by decide
  unfold verdict
  split
  · next hs => simp [hs, hdistinct.1]
  · next hs =>
      split
      · next hlimit => simp [hs, hlimit]
      · next hlimit => simp [hlimit, hdistinct.2]

theorem verdict_eq_notProved_iff {s : ProofState} :
    verdict s = notProved ↔ s.isRefuted = false ∧ s.haltReason ≠ HaltReason.passLimit := by
  have hdistinct : proved ≠ notProved ∧ stopped ≠ notProved := by decide
  unfold verdict
  split
  · next hs => simp [hs, hdistinct.1]
  · next hs =>
      split
      · next hlimit => simp [hlimit, hdistinct.2]
      · next hlimit => simp [hs, hlimit]

end Report

theorem ProofState.lastLine_report {s : ProofState} {fullLog : Bool} {text : String}
    (h : s.report fullLog = .ok text) : Report.lastLine text = Report.verdict s := by
  obtain ⟨ls, hls, htext⟩ := Fallible.bind_eq_ok.1 h
  obtain ⟨front, hfront, rfl⟩ := Report.lines_eq_append_verdict hls
  rw [← Except.ok.inj htext, String.intercalate_append_of_ne_nil hfront (by simp),
    String.intercalate_singleton]
  exact Report.lastLine_append (Report.lineFeed_not_mem_verdict s) _

/-- An attempt that returns has read its clauses, and reports on the run from them. -/
theorem prove_eq_ok {text : String} {fullLog : Bool} {limit : Option Int} {verbose : Bool}
    {attempt : Attempt} (h : prove text fullLog limit verbose = .ok attempt) :
    ∃ clauses, parseClauses text = .ok clauses ∧
      ((ProofState.ofClauses clauses).run limit).state.report fullLog = .ok attempt.report := by
  obtain ⟨run, hrun, h⟩ := Fallible.bind_eq_ok.1 h
  obtain ⟨report, hreport, h⟩ := Fallible.bind_eq_ok.1 h
  obtain ⟨clauses, hparse, hsearch⟩ := Fallible.bind_eq_ok.1 (Fallible.mapError_eq_ok.1 hrun)
  refine ⟨clauses, hparse, ?_⟩
  rw [← Except.ok.inj h, Except.ok.inj hsearch]
  exact Fallible.mapError_eq_ok.1 hreport

theorem prove_of_report {text report : String} {fullLog : Bool} {limit : Option Int}
    {clauses : List Clause} (hparse : parseClauses text = .ok clauses)
    (hreport : ((ProofState.ofClauses clauses).run limit).state.report fullLog = .ok report)
    (verbose : Bool) :
    ∃ attempt, prove text fullLog limit verbose = .ok attempt ∧ attempt.report = report := by
  simp only [prove, search, hparse, bind, Except.bind, pure, Except.pure, Except.mapError, hreport]
  exact ⟨_, rfl, rfl⟩

/-- A text whose report ends with the line of success has clauses without a model. -/
theorem unsatisfiable_of_proved {text : String} {fullLog : Bool} {limit : Option Int}
    {verbose : Bool} {clauses : List Clause} {attempt : Attempt}
    (hparse : parseClauses text = .ok clauses)
    (hprove : prove text fullLog limit verbose = .ok attempt)
    (hlast : Report.lastLine attempt.report = Report.proved) : Unsatisfiable.{u} clauses := by
  obtain ⟨clauses', hparse', hreport⟩ := prove_eq_ok hprove
  obtain rfl : clauses = clauses' := Except.ok.inj (hparse.symm.trans hparse')
  have hgrown := (ProofState.grownFrom_ofClauses clauses).run limit
  have hrefuted : ((ProofState.ofClauses clauses).run limit).state.isRefuted = true := by
    rw [← Report.verdict_eq_proved_iff, ← ProofState.lastLine_report hreport, hlast]
  obtain ⟨c, hc, hempty⟩ := hgrown.exists_isEmpty_of_isRefuted hrefuted
  exact hgrown.unsatisfiable hc hempty

/-- Two steps are needed here, and the second binds a variable that both clauses share. -/
theorem unsatisfiable_of_proved_swap :
    ∃ clauses attempt, parseClauses "P(x, y) V P(y, x), ¬P(a, z)" = .ok clauses ∧
      prove "P(x, y) V P(y, x), ¬P(a, z)" false none false = .ok attempt ∧
      Report.lastLine attempt.report = Report.proved ∧ Unsatisfiable.{0} clauses := by
  obtain ⟨clauses, hclauses⟩ : ∃ cs : List Clause, cs =
      [⟨[⟨"P", [.var "x", .var "y"], false⟩, ⟨"P", [.var "y", .var "x"], false⟩]⟩,
        ⟨[⟨"P", [.const "a", .var "z"], true⟩]⟩] := ⟨_, rfl⟩
  have hparse : parseClauses "P(x, y) V P(y, x), ¬P(a, z)" = .ok clauses := by
    rw [hclauses]
    decide +kernel
  obtain ⟨s, hs⟩ : ∃ s, s = (ProofState.ofClauses clauses).pass.state.pass.state := ⟨_, rfl⟩
  have hrun : ((ProofState.ofClauses clauses).run none).state = s := by
    rw [hs, hclauses, ProofState.run_of_running rfl rfl,
      ProofState.run_of_running (by decide +kernel) rfl,
      ProofState.run_of_halted none (by decide +kernel)]
  rw [hclauses] at hs
  have hrefuted : s.isRefuted = true := by
    rw [hs]
    decide +kernel
  have hnumber : s.emptyClauseNumber? = some 4 := by
    rw [hs]
    decide +kernel
  have hneeded : Derivation.needed s.derivation s.numInput 4 = .ok [1, 2, 3, 4] := by
    have hcollect : Derivation.collect s.derivation s.numInput 4 [] = .ok [3, 4] := by
      rw [hs]
      decide +kernel
    have hnumInput : s.numInput = 2 := by
      rw [hs]
      decide +kernel
    rw [Derivation.needed, hcollect, hnumInput]
    exact congrArg Except.ok (List.mergeSort_of_pairwise (by decide))
  have hsection : (Report.derivationSection s false).toOption.isSome = true := by
    rw [Report.derivationSection, if_pos hrefuted, hnumber, Derivation.minimize, hneeded, hs]
    decide +kernel
  obtain ⟨report, hreport⟩ : ∃ report, s.report false = .ok report := by
    cases h : Report.derivationSection s false with
    | ok lines =>
        rw [ProofState.report, Report.lines, h]
        exact ⟨_, rfl⟩
    | error e => simp [h, Except.toOption] at hsection
  obtain ⟨attempt, hprove, rfl⟩ := prove_of_report hparse (hrun ▸ hreport) false
  have hlast : Report.lastLine attempt.report = Report.proved :=
    (ProofState.lastLine_report hreport).trans (Report.verdict_eq_proved_iff.2 hrefuted)
  exact ⟨_, attempt, hparse, hprove, hlast, unsatisfiable_of_proved hparse hprove hlast⟩

end Resolution
