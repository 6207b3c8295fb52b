import Resolution.Proofs.Checkpoints
import Resolution.Proofs.Limits

/-!
# Stopping and going on

A search that was stopped at a limit can be written to a checkpoint, opened again and carried on.
Between two passes a search has no memory beyond what its checkpoint holds, so it makes no
difference where it was stopped, nor how often: it ends in the state in which it would have ended
unstopped.
-/

namespace Resolution

namespace ProofState

/-- The state read from the checkpoint of a state, marked there as not halted. -/
def reopened (s : ProofState) : Checkpoint.Decoder ProofState :=
  Checkpoint.toState
    ((Checkpoint.ofState s).override [("halted", .bool false), ("halt_reason", .str "")])

theorem reopened_eq (s : ProofState) :
    s.reopened = .ok { s with halted := false, haltReason := "" } :=
  (Checkpoint.records_override s false "").toState

/-- Opening a search undoes its stop. -/
theorem reopened_stop {s : ProofState} (hopen : s.halted = false) (hreason : s.haltReason = "") :
    s.stop.reopened = .ok s := by
  rw [reopened_eq, ← hopen, ← hreason]
  rfl

/-- A search that is still open has not changed its reason. -/
theorem haltReason_passed {s : ProofState} {n : Nat} (h : ∀ k ≤ n, (s.passed k).halted = false) :
    (s.passed n).haltReason = s.haltReason := by
  induction n with
  | zero => rfl
  | succ n ih =>
      have hbefore := ih fun k hk => h k (Nat.le_succ_of_le hk)
      have hopen : (s.passed n).pass.state.halted = false := h (n + 1) (Nat.le_refl _)
      rcases (s.passed n).pass_cases with ⟨-, hhalted, -⟩ | ⟨-, -, hhalted, -⟩ | ⟨-, -, -, hreason⟩
      · exact absurd (hopen.symm.trans hhalted) (by simp)
      · exact absurd (hopen.symm.trans hhalted) (by simp)
      · exact hreason.trans hbefore

/-- All that a run under a limit can come to: the end of the search, or a stop on the way there. -/
theorem stage_cases {s : ProofState} (hopen : s.halted = false) (limit : Int) :
    (s.run (some limit)).state.haltReason ≠ HaltReason.passLimit ∧
        (s.run (some limit)).state = (s.run none).state ∨
      ∃ t : ProofState, (s.run (some limit)).state = t.stop ∧ t.halted = false ∧
        t.haltReason = s.haltReason ∧ (t.run none).state = (s.run none).state := by
  obtain ⟨n, hgo, hend⟩ := s.run_cases (some limit)
  have hgo' : ∀ k < n, (s.passed k).halted = false ∧ (s.passed k).atLimit none = false :=
    fun k hk => ⟨(hgo k hk).1, rfl⟩
  rcases hend with ⟨hhalted, hrun⟩ | ⟨hstill, -, hrun⟩
  · have hfull : (s.run none).state = s.passed n := run_eq_passed hgo' hhalted
    obtain ⟨-, -, hlimit, -, hlimit'⟩ := reasons_distinct
    left
    rw [hrun, ← hfull]
    refine ⟨?_, rfl⟩
    rcases (haltReason_run_none hopen).2 with hreason | hreason
    · rw [hreason]
      exact hlimit.symm
    · rw [hreason]
      exact hlimit'.symm
  · have hopen' : ∀ k ≤ n, (s.passed k).halted = false := by
      intro k hk
      rcases Nat.lt_or_eq_of_le hk with hlt | rfl
      · exact (hgo k hlt).1
      · exact hstill
    exact .inr ⟨s.passed n, hrun, hstill, haltReason_passed hopen', run_passed hgo'⟩

/-- Runs under one limit after another, from a checkpoint each time, for as long as it is the limit
that stops the run. The last run has no limit. -/
def runInStages : List Int → ProofState → Checkpoint.Decoder ProofState
  | [], s => .ok (s.run none).state
  | limit :: limits, s =>
    let t := (s.run (some limit)).state
    if t.haltReason = HaltReason.passLimit then do runInStages limits (← t.reopened)
    else .ok t

theorem runInStages_eq {s : ProofState} (hopen : s.halted = false) (hreason : s.haltReason = "")
    (limits : List Int) : runInStages limits s = .ok (s.run none).state := by
  induction limits generalizing s with
  | nil => rfl
  | cons limit limits ih =>
      unfold runInStages
      dsimp only
      rcases stage_cases hopen limit with ⟨hended, hrun⟩ | ⟨t, hrun, hopen', hreason', hrest⟩
      · rw [if_neg hended, hrun]
      · have hstopped : t.stop.haltReason = HaltReason.passLimit := rfl
        have hblank : t.haltReason = "" := hreason'.trans hreason
        rw [hrun, if_pos hstopped, reopened_stop hopen' hblank, ← hrest]
        exact ih hopen' hblank

/-- However often and wherever a search is stopped, written to a checkpoint, read back and carried
on, it ends in the very state in which it ends when nothing stops it. -/
theorem staged_run_transparent (input : List Clause) (limits : List Int) :
    runInStages limits (ofClauses input) = .ok ((ofClauses input).run none).state :=
  runInStages_eq rfl rfl limits

end ProofState

end Resolution
