import Mathlib.Tactic.TFAE
import Resolution.Proofs.Minimization
import Resolution.Proofs.Reading
import Resolution.Proofs.Verdict

/-!
# Reports on a search

A step that the search recorded can always be written: it has two parents and two literals, and the
chains of its unifier end. A slice of the derivation consists of such steps again, so there is a
report on every state that grew from an input. On a run from a text the last line of the report, the
reason for which the run ended and the clauses that it holds tell the same story.
-/

namespace Resolution

theorem Unifier.exists_text (u : Unifier) : ∃ text, u.toSubstitution.text = .ok text := by
  have hbinding : ∀ x ∈ u.toSubstitution.keys, ∃ text, u.toSubstitution.bindingText x = .ok text :=
    fun x _ => Fallible.exists_bind_eq_ok.2 ⟨_, u.follow_eq (.var x), _, rfl⟩
  obtain ⟨texts, htexts⟩ := Fallible.exists_mapM_eq_ok hbinding
  exact Fallible.exists_bind_eq_ok.2 ⟨texts, htexts, _, rfl⟩

theorem Resolvent.exists_stepLines (r : Resolvent) (i j : Nat) (number : Int) :
    ∃ lines, Report.stepLines number (r.step i j) = .ok lines := by
  obtain ⟨text, htext⟩ := r.unifier.exists_text
  refine Fallible.exists_bind_eq_ok.2 ⟨((i : Int) + 1, (j : Int) + 1), rfl, ?_⟩
  refine Fallible.exists_bind_eq_ok.2 ⟨(r.left, r.right), rfl, ?_⟩
  exact Fallible.exists_bind_eq_ok.2 ⟨text, Fallible.mapError_eq_ok.2 htext, _, rfl⟩

theorem Growth.exists_derivationLines {cs : List Clause} {steps : List Step} (h : Growth cs steps)
    (numInput : Int) : ∃ lines, Report.derivationLines numInput steps = .ok lines := by
  have hstep : ∀ entry ∈ steps.zipIdx,
      ∃ lines, Report.stepLines (numInput + entry.2 + 1) entry.1 = .ok lines := by
    intro entry hentry
    have hat := List.mem_zipIdx_iff_getElem?.1 hentry
    obtain ⟨i, j, -, -, -, -, -, -, r, -, hr⟩ := h.origin_at hat
    rw [hr]
    exact r.exists_stepLines i j _
  obtain ⟨blocks, hblocks⟩ := Fallible.exists_mapM_eq_ok hstep
  exact Fallible.exists_bind_eq_ok.2 ⟨blocks, hblocks, _, rfl⟩

namespace ProofState

theorem GrownFrom.exists_derivationSection {input : List Clause} {s : ProofState}
    (h : s.GrownFrom input) (fullLog : Bool) :
    ∃ lines, Report.derivationSection s fullLog = .ok lines := by
  obtain ⟨log, hlog⟩ := h.growth.exists_derivationLines s.numInput
  unfold Report.derivationSection
  split
  · next hs =>
      obtain ⟨short, hminimize, hshort, -⟩ := h.exists_minimized hs
      obtain ⟨lines, hlines⟩ := hshort.exists_derivationLines s.numInput
      have hrest : ∀ full : List String, ∃ lines, (do
          let short ← (Derivation.minimize s.derivation s.numInput s.emptyClauseNumber?).mapError
            ReportError.slice
          return full ++ (← Report.derivationLines s.numInput short)) = .ok lines := by
        intro full
        refine Fallible.exists_bind_eq_ok.2 ⟨short, Fallible.mapError_eq_ok.2 hminimize, ?_⟩
        exact Fallible.exists_bind_eq_ok.2 ⟨lines, hlines, _, rfl⟩
      cases fullLog with
      | true =>
          refine Fallible.exists_bind_eq_ok.2 ⟨log, hlog, ?_⟩
          exact Fallible.exists_bind_eq_ok.2 ⟨_, rfl, hrest _⟩
      | false => exact Fallible.exists_bind_eq_ok.2 ⟨[], rfl, hrest []⟩
  · exact ⟨log, hlog⟩

/-- A state that grew from an input, by whatever calls, has a report. -/
theorem GrownFrom.exists_report {input : List Clause} {s : ProofState} (h : s.GrownFrom input)
    (fullLog : Bool) : ∃ report, s.report fullLog = .ok report := by
  obtain ⟨lines, hlines⟩ := h.exists_derivationSection fullLog
  exact Fallible.exists_bind_eq_ok.2 ⟨_, Fallible.bind_eq_ok.2 ⟨lines, hlines, rfl⟩, _, rfl⟩

end ProofState

/-- For every text that can be read, the search ends and there is a report on it. The reason of a
refutation, the empty clause as the last one derived, an empty clause among the clauses and the line
of success go together, and then the empty clause is the last clause and no other is empty. The line
on the limit and the line on exhaustion stand exactly for the two other reasons. -/
theorem verdict_agrees {text : String} {clauses : List Clause}
    (hparse : parseClauses text = .ok clauses) (limit : Option Int) (fullLog : Bool) :
    let s := ((ProofState.ofClauses clauses).run limit).state
    s.halted = true ∧ ∃ report, s.report fullLog = .ok report ∧
      [s.haltReason = HaltReason.refuted, s.isRefuted = true, ∃ c ∈ s.clauses, c.isEmpty = true,
        Report.lastLine report = Report.proved].TFAE ∧
      (s.haltReason = HaltReason.refuted →
        s.emptyClauseNumber? = some (s.clauses.length : Int) ∧
          ∀ (k : Nat) (c : Clause), s.clauses[k]? = some c →
            (c.isEmpty = true ↔ k + 1 = s.clauses.length)) ∧
      (Report.lastLine report = Report.stopped ↔ s.haltReason = HaltReason.passLimit) ∧
      (Report.lastLine report = Report.notProved ↔ s.haltReason = HaltReason.saturated) := by
  intro s
  have hgrown : s.GrownFrom clauses := (ProofState.grownFrom_ofClauses clauses).run limit
  have hhonest : s.Honest := (ProofState.honest_ofClauses clauses).run limit
  have hreason : s.isRefuted = true ↔ s.haltReason = HaltReason.refuted :=
    ProofState.isRefuted_run_iff clauses limit
  have hend : s.halted = true ∧ (s.haltReason = HaltReason.refuted ∨
      s.haltReason = HaltReason.saturated ∨
      limit ≠ none ∧ s.haltReason = HaltReason.passLimit) := ProofState.haltReason_run rfl limit
  obtain ⟨report, hreport⟩ := hgrown.exists_report fullLog
  have hline := ProofState.lastLine_report hreport
  have hopen : s.isRefuted = false ↔ s.haltReason ≠ HaltReason.refuted := by
    rw [ne_eq, ← hreason, Bool.not_eq_true]
  obtain ⟨-, hsaturated, hlimit, -, hdistinct⟩ := ProofState.reasons_distinct
  refine ⟨hend.1, report, hreport, ?_, fun h => ?_, ?_, ?_⟩
  · tfae_have 2 ↔ 1 := hreason
    tfae_have 2 → 3 := hgrown.exists_isEmpty_of_isRefuted
    tfae_have 3 → 1 := by
      rintro ⟨c, hc, hempty⟩
      rw [hgrown.clauses, List.mem_append, List.mem_map] at hc
      rcases hc with hc | ⟨step, hstep, rfl⟩
      · exact absurd (hempty.symm.trans (isEmpty_of_parseClauses hparse c hc)) (by simp)
      · exact hhonest.refuted.2 ⟨step, hstep, hempty⟩
    tfae_have 4 ↔ 2 := by rw [hline, Report.verdict_eq_proved_iff]
    tfae_finish
  · have hs := hreason.2 h
    exact ⟨hgrown.emptyClauseNumber?_eq hs, fun k c hk => hgrown.isEmpty_iff_last hs hk⟩
  · rw [hline, Report.verdict_eq_stopped_iff, hopen]
    constructor
    · exact fun h => h.2
    · intro h
      rw [h]
      exact ⟨hlimit, rfl⟩
  · rw [hline, Report.verdict_eq_notProved_iff, hopen]
    constructor
    · rintro ⟨hrefuted, hpassLimit⟩
      rcases hend.2 with h | h | h
      · exact absurd h hrefuted
      · exact h
      · exact absurd h.2 hpassLimit
    · intro h
      rw [h]
      exact ⟨hsaturated, hdistinct.symm⟩

/-- The first pass leaves this text undecided and the second refutes it. -/
theorem verdict_agrees_after_one_pass_and_two :
    ∃ clauses first second, parseClauses "P(a), ¬P(x) V Q(x), ¬Q(a)" = .ok clauses ∧
      ((ProofState.ofClauses clauses).run (some 1)).state.report true = .ok first ∧
      Report.lastLine first = Report.stopped ∧
      ((ProofState.ofClauses clauses).run none).state.report false = .ok second ∧
      Report.lastLine second = Report.proved := by
  obtain ⟨clauses, hclauses⟩ : ∃ cs : List Clause, cs =
      [⟨[⟨"P", [.const "a"], false⟩]⟩,
        ⟨[⟨"P", [.var "x"], true⟩, ⟨"Q", [.var "x"], false⟩]⟩,
        ⟨[⟨"Q", [.const "a"], true⟩]⟩] := ⟨_, rfl⟩
  have hparse : parseClauses "P(a), ¬P(x) V Q(x), ¬Q(a)" = .ok clauses := by
    rw [hclauses]
    decide +kernel
  have hlimited : ((ProofState.ofClauses clauses).run (some 1)).state.haltReason =
      HaltReason.passLimit := by
    rw [hclauses, ProofState.run_of_running rfl rfl,
      ProofState.run_of_atLimit (by decide +kernel) (by decide +kernel)]
    rfl
  have hunlimited : ((ProofState.ofClauses clauses).run none).state.haltReason =
      HaltReason.refuted := by
    rw [hclauses, ProofState.run_of_running rfl rfl,
      ProofState.run_of_running (by decide +kernel) rfl,
      ProofState.run_of_halted none (by decide +kernel)]
    decide +kernel
  obtain ⟨-, first, hfirst, -, -, hstopped, -⟩ := verdict_agrees hparse (some 1) true
  obtain ⟨-, second, hsecond, htfae, -⟩ := verdict_agrees hparse none false
  exact ⟨clauses, first, second, hparse, hfirst, hstopped.2 hlimited, hsecond,
    (htfae.out 0 3).1 hunlimited⟩

end Resolution
