import Resolution.Proofs.CheckedSearch
import Resolution.Proofs.Reports

/-!
# Attempts fail only in reading

A proof attempt reads its text, searches and reports, and each of these could fail: a text may be
malformed, a chain of bindings cyclic, a step without its two parents or its two literals, a parent
later than its step or without a number in the slice. All these failures are errors here, those of
the search included. An attempt meets only the first kind: whatever it has read, it reports on.
-/

namespace Resolution

namespace ProofState

/-- Makes passes until the state has halted or the limit is reached, unless one of them fails. -/
def checkedRun (limit : Option Int) (s : ProofState) : Except CyclicChain Run :=
  if s.halted then .ok ⟨s, []⟩
  else if s.atLimit limit then .ok ⟨s.stop, []⟩
  else
    match _h : s.checkedSweep with
    | .error e => .error e
    | .ok sweep =>
      (checkedRun limit (s.concluded sweep).state).map fun rest =>
        ⟨rest.state, (s.concluded sweep).log ++ rest.log⟩
termination_by s.remaining
decreasing_by
  have hsweep : sweep = s.sweep := Except.ok.inj (_h.symm.trans s.checkedSweep_eq)
  rw [hsweep]
  exact remaining_pass_lt (by simpa using ‹¬s.halted = true›)

/-- No run fails. -/
theorem checkedRun_eq (limit : Option Int) (s : ProofState) :
    s.checkedRun limit = .ok (s.run limit) := by
  induction s using run.induct limit with
  | case1 s hhalted => rw [checkedRun, if_pos hhalted, run_of_halted limit hhalted]
  | case2 s hhalted hlimit =>
      rw [checkedRun, if_neg hhalted, if_pos hlimit, run_of_atLimit (by simpa using hhalted) hlimit]
  | case3 s hhalted hlimit first ih =>
      rw [checkedRun, if_neg hhalted, if_neg hlimit,
        run_of_running (by simpa using hhalted) (by simpa using hlimit)]
      split
      · next e he =>
          rw [checkedSweep_eq] at he
          cases he
      · next sweep hsweep =>
          rw [checkedSweep_eq] at hsweep
          rw [← Except.ok.inj hsweep, ← pass, ih]
          rfl

end ProofState

/-- All that can go wrong in an attempt. -/
inductive AttemptError where
  | parse (e : ParseError)
  | search (e : CyclicChain)
  | report (e : ReportError)
  deriving DecidableEq, Repr

/-- Reads, searches and reports as `prove` does, but with a search that may fail. -/
def checkedProve (text : String) (fullLog : Bool) (limit : Option Int) (verbose : Bool) :
    Except AttemptError Attempt := do
  let clauses ← (parseClauses text).mapError .parse
  let run ← ((ProofState.ofClauses clauses).checkedRun limit).mapError .search
  let report ← (run.state.report fullLog).mapError .report
  return { report, trace := if verbose then run.logText else "" }

section

variable {text : String} (fullLog : Bool) (limit : Option Int) (verbose : Bool)

/-- A text that cannot be read ends the attempt with the error found. -/
theorem checkedProve_of_unreadable {e : ParseError} (h : parseClauses text = .error e) :
    checkedProve text fullLog limit verbose = .error (.parse e) ∧
      prove text fullLog limit verbose = .error (.parse e) := by
  constructor
  · rw [checkedProve, h]
    rfl
  · rw [prove, search, h]
    rfl

/-- A text that can be read is reported on. -/
theorem checkedProve_of_readable {clauses : List Clause} (h : parseClauses text = .ok clauses) :
    ∃ attempt, checkedProve text fullLog limit verbose = .ok attempt ∧
      prove text fullLog limit verbose = .ok attempt := by
  have hgrown := (ProofState.grownFrom_ofClauses clauses).run limit
  obtain ⟨report, hreport⟩ := hgrown.exists_report fullLog
  refine ⟨⟨report, if verbose then ((ProofState.ofClauses clauses).run limit).logText else ""⟩,
    ?_, ?_⟩
  · simp only [checkedProve, h, ProofState.checkedRun_eq, bind, Except.bind, Except.mapError,
      hreport]
    rfl
  · simp only [prove, search, h, bind, Except.bind, pure, Except.pure, Except.mapError, hreport]

end

/-- For every text and all settings, an attempt fails exactly when the text cannot be read, and then
with the error found in reading. No cycle is met in the search, and writing the report fails neither
on a chain, nor on a step that lacks parents or literals, nor on a slice. -/
theorem attempt_fails_only_in_reading (text : String) (fullLog : Bool) (limit : Option Int)
    (verbose : Bool) :
    (∀ e, checkedProve text fullLog limit verbose = .error e ↔
        ∃ fault, e = .parse fault ∧ parseClauses text = .error fault) ∧
      (∀ e, checkedProve text fullLog limit verbose ≠ .error (.search e)) ∧
      (∀ e, checkedProve text fullLog limit verbose ≠ .error (.report e)) ∧
      (∀ e, prove text fullLog limit verbose = .error e ↔
        ∃ fault, e = .parse fault ∧ parseClauses text = .error fault) ∧
      ∀ attempt, checkedProve text fullLog limit verbose = .ok attempt ↔
        prove text fullLog limit verbose = .ok attempt := by
  cases h : parseClauses text with
  | error fault =>
      obtain ⟨hchecked, hprove⟩ := checkedProve_of_unreadable fullLog limit verbose h
      rw [hchecked, hprove]
      simp [eq_comm]
  | ok clauses =>
      obtain ⟨attempt, hchecked, hprove⟩ := checkedProve_of_readable fullLog limit verbose h
      rw [hchecked, hprove]
      simp

end Resolution
