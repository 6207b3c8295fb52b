import Resolution.Search.Progress

/-!
# Running a search

A search makes passes until the empty clause is derived or nothing new can be accepted. A caller may
limit the number of passes; the passes that a state has behind it count towards the limit. Without a
limit the search ends as well, since every pass leaves less room for new clauses.

So a run makes passes from states that have not halted, and then either has halted or stops at the
limit. What a pass and a stop preserve, a run preserves, and so does every sequence of calls.
-/

namespace Resolution

namespace ProofState

/-- Has the state as many passes behind it as the limit allows? -/
def atLimit (s : ProofState) : Option Int → Bool
  | none => false
  | some limit => limit ≤ s.passes

/-- The state as a run leaves it at the limit. -/
def stop (s : ProofState) : ProofState :=
  { s with halted := true, haltReason := HaltReason.passLimit }

/-- Makes passes until the state has halted or the limit is reached. -/
def run (limit : Option Int) (s : ProofState) : Run :=
  if s.halted then ⟨s, []⟩
  else if s.atLimit limit then ⟨s.stop, []⟩
  else
    let first := s.pass
    let rest := run limit first.state
    ⟨rest.state, first.log ++ rest.log⟩
termination_by s.remaining
decreasing_by exact remaining_pass_lt (by simpa using ‹¬s.halted = true›)

theorem run_of_halted (limit : Option Int) {s : ProofState} (h : s.halted = true) :
    s.run limit = ⟨s, []⟩ := by
  rw [run, if_pos h]

theorem run_of_atLimit {limit : Option Int} {s : ProofState} (h : s.halted = false)
    (hlimit : s.atLimit limit = true) : s.run limit = ⟨s.stop, []⟩ := by
  rw [run, if_neg (by simp [h]), if_pos hlimit]

/-- A search that may go on makes a pass first. -/
theorem run_of_running {limit : Option Int} {s : ProofState} (h : s.halted = false)
    (hlimit : s.atLimit limit = false) :
    s.run limit =
      ⟨(s.pass.state.run limit).state, s.pass.log ++ (s.pass.state.run limit).log⟩ := by
  rw [run, if_neg (by simp [h]), if_neg (by simp [hlimit])]

/-- The state after the given number of passes. -/
def passed (s : ProofState) : Nat → ProofState
  | 0 => s
  | n + 1 => (s.passed n).pass.state

theorem passed_pass (s : ProofState) (n : Nat) : s.pass.state.passed n = s.passed (n + 1) := by
  induction n with
  | zero => rfl
  | succ n ih =>
      rw [passed, ih]
      rfl

@[simp] theorem passes_passed (s : ProofState) (n : Nat) : (s.passed n).passes = s.passes + n := by
  induction n with
  | zero => simp [passed]
  | succ n ih =>
      change (s.passed n).passes + 1 = s.passes + (n + 1 : Nat)
      rw [ih]
      omega

/-- All that a run can do: passes while it may go on, then it has halted or is stopped. -/
theorem run_cases (limit : Option Int) (s : ProofState) :
    ∃ n, (∀ k < n, (s.passed k).halted = false ∧ (s.passed k).atLimit limit = false) ∧
      ((s.passed n).halted = true ∧ (s.run limit).state = s.passed n ∨
        (s.passed n).halted = false ∧ (s.passed n).atLimit limit = true ∧
          (s.run limit).state = (s.passed n).stop) := by
  induction s using run.induct limit with
  | case1 s h => exact ⟨0, by simp, .inl ⟨h, by rw [run_of_halted limit h]; rfl⟩⟩
  | case2 s h hlimit =>
      have h' : s.halted = false := by simpa using h
      exact ⟨0, by simp, .inr ⟨h', hlimit, by rw [run_of_atLimit h' hlimit]; rfl⟩⟩
  | case3 s h hlimit first ih =>
      have h' : s.halted = false := by simpa using h
      have hlimit' : s.atLimit limit = false := by simpa using hlimit
      obtain ⟨n, hgo, hend⟩ := ih
      refine ⟨n + 1, fun k hk => ?_, ?_⟩
      · cases k with
        | zero => exact ⟨h', hlimit'⟩
        | succ k =>
            rw [← passed_pass]
            exact hgo k (by omega)
      · rw [run_of_running h' hlimit', ← passed_pass]
        exact hend

theorem run_preserves {P : ProofState → Prop}
    (pass : ∀ s : ProofState, s.halted = false → P s → P s.pass.state)
    (stop : ∀ s : ProofState, s.halted = false → P s → P s.stop) {s : ProofState} (h : P s)
    (limit : Option Int) : P (s.run limit).state := by
  obtain ⟨n, hgo, hend⟩ := s.run_cases limit
  have hpassed : ∀ k ≤ n, P (s.passed k) := by
    intro k hk
    induction k with
    | zero => exact h
    | succ k ih => exact pass _ (hgo k hk).1 (ih (Nat.le_of_succ_le hk))
  rcases hend with ⟨-, hrun⟩ | ⟨hopen, -, hrun⟩
  · rw [hrun]
    exact hpassed n (Nat.le_refl n)
  · rw [hrun]
    exact stop _ hopen (hpassed n (Nat.le_refl n))

/-- Without a limit a run ends where a pass has halted it. -/
theorem run_none_cases (s : ProofState) :
    ∃ n, (∀ k < n, (s.passed k).halted = false) ∧ (s.passed n).halted = true ∧
      (s.run none).state = s.passed n := by
  obtain ⟨n, hgo, ⟨hhalted, hrun⟩ | ⟨-, hlimit, -⟩⟩ := s.run_cases none
  · exact ⟨n, fun k hk => (hgo k hk).1, hhalted, hrun⟩
  · simp [atLimit] at hlimit

end ProofState

/-- A call that advances a proof attempt. Either may be made on a state that has halted. -/
inductive Call where
  | pass
  | run (limit : Option Int)
  deriving DecidableEq, Repr

def Call.perform : Call → ProofState → ProofState
  | pass, s => s.pass.state
  | run limit, s => (s.run limit).state

def ProofState.after (s : ProofState) (calls : List Call) : ProofState :=
  calls.foldl (fun s call => call.perform s) s

section Preserved

variable {P : ProofState → Prop} (pass : ∀ s : ProofState, P s → P s.pass.state)
  (stop : ∀ s : ProofState, P s → P s.stop)

include pass stop

theorem Call.perform_preserves (call : Call) {s : ProofState} (h : P s) : P (call.perform s) := by
  cases call with
  | pass => exact pass s h
  | run limit => exact ProofState.run_preserves (fun s _ => pass s) (fun s _ => stop s) h limit

theorem ProofState.after_preserves {s : ProofState} (h : P s) (calls : List Call) :
    P (s.after calls) :=
  List.foldlRecOn calls _ h fun _ hs call _ => call.perform_preserves pass stop hs

end Preserved

end Resolution
