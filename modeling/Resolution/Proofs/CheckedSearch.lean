import Resolution.Proofs.Resolvents
import Resolution.Search.Run

/-!
# The search with failing chains

Here every chain is followed under its limit, in unifying and in applying the result, and a cycle
ends the search with an error. Since unification started from nothing builds no cycle, no error ever
comes up, and the search is the one without errors.
-/

namespace Resolution

/-- Resolves on two literals and reports a cycle met in unifying them or in applying the result. -/
def Clause.checkedResolveOn (c d : Clause) (l m : Literal) : Except CyclicChain (Option Entry) :=
  if l.name = m.name ∧ l.negated ≠ m.negated then do
    match ← Substitution.unifyLiterals ∅ l m.negate with
    | none => return none
    | some σ =>
      let l' ← σ.applyLiteral l
      let m' ← σ.applyLiteral m
      let c' ← σ.applyClause c
      let d' ← σ.applyClause d
      let rest := c'.literals.filter (· ≠ l') ++ d'.literals.filter (· ≠ m')
      return some (⟨rest.eraseDups⟩, l, m, σ)
  else return none

def Clause.checkedResolve (c d : Clause) : Except CyclicChain (List Entry) := do
  let found ← c.literals.mapM fun l => d.literals.mapM fun m => c.checkedResolveOn d l m
  return found.flatten.filterMap id

theorem Clause.checkedResolveOn_eq (c d : Clause) (l m : Literal) :
    c.checkedResolveOn d l m = .ok ((c.resolveOn? d l m).map Resolvent.entry) := by
  unfold checkedResolveOn resolveOn?
  split
  · cases h : Substitution.unifyLiterals ∅ l m.negate with
    | error e => exact absurd h (Substitution.terminates_empty.unifyLiterals_ne_error l m.negate e)
    | ok r =>
        cases r with
        | none =>
            rw [Unifier.ofLiterals_eq_none_iff.2 h]
            rfl
        | some σ =>
            obtain ⟨u, hu, rfl⟩ := Unifier.unifyLiterals_eq_some_iff.1 h
            rw [hu]
            simp only [bind, Except.bind, Unifier.toSubstitution_applyLiteral,
              Unifier.toSubstitution_applyClause]
            rfl
  · rfl

/-- Resolution never meets a cycle, and gives the resolvents in order. -/
theorem Clause.checkedResolve_eq (c d : Clause) :
    c.checkedResolve d = .ok ((c.resolve d).map Resolvent.entry) := by
  have hon : ∀ l, c.checkedResolveOn d l =
      fun m => pure ((c.resolveOn? d l m).map Resolvent.entry) :=
    fun l => funext (c.checkedResolveOn_eq d l)
  have hfound : (c.literals.map fun l =>
      d.literals.map fun m => (c.resolveOn? d l m).map Resolvent.entry).flatten.filterMap id =
        (c.resolve d).map Resolvent.entry := by
    rw [Clause.resolve, List.map_flatMap, List.filterMap_flatten, List.map_map, List.flatMap]
    congr 2
    funext l
    rw [Function.comp_apply, List.filterMap_map, List.map_filterMap]
    rfl
  simp only [checkedResolve, hon, List.mapM_pure]
  exact congrArg Except.ok hfound

def Sweep.checkedVisit (sweep : Sweep) (first second : Clause × Nat) : Except CyclicChain Sweep :=
  let place : Int × Int := (first.2, second.2)
  if sweep.refuted || sweep.checked.contains place then return sweep
  else do
    let entries ← first.1.checkedResolve second.1
    return entries.foldl (consider first.2 second.2)
      { sweep with checked := sweep.checked.insert place }

theorem Sweep.checkedVisit_eq (sweep : Sweep) (first second : Clause × Nat) :
    sweep.checkedVisit first second = .ok (sweep.visit first second) := by
  unfold checkedVisit visit
  dsimp only
  split
  · rfl
  · rw [Clause.checkedResolve_eq]
    exact congrArg Except.ok List.foldl_map

namespace ProofState

def checkedSweep (s : ProofState) : Except CyclicChain Sweep :=
  (orderedPairs s.clauses.zipIdx).foldlM (fun sweep pair => sweep.checkedVisit pair.1 pair.2)
    { known := s.clauses, checked := s.checked }

def checkedPass (s : ProofState) : Except CyclicChain ProofState := do
  return s.finish (← s.checkedSweep)

/-- The given number of passes, unless one of them fails. -/
def checkedPasses (s : ProofState) : Nat → Except CyclicChain ProofState
  | 0 => .ok s
  | n + 1 => do (← s.checkedPasses n).checkedPass

theorem checkedSweep_eq (s : ProofState) : s.checkedSweep = .ok s.sweep := by
  have hvisit : (fun (sweep : Sweep) (pair : (Clause × Nat) × Clause × Nat) =>
      sweep.checkedVisit pair.1 pair.2) =
        fun sweep pair => pure (sweep.visit pair.1 pair.2) := by
    funext sweep pair
    exact sweep.checkedVisit_eq pair.1 pair.2
  rw [checkedSweep, hvisit, List.foldlM_pure]
  rfl

theorem checkedPass_eq (s : ProofState) : s.checkedPass = .ok s.pass.state := by
  rw [checkedPass, checkedSweep_eq]
  rfl

/-- No pass fails. -/
theorem checkedPasses_eq (s : ProofState) (n : Nat) : s.checkedPasses n = .ok (s.passed n) := by
  induction n with
  | zero => rfl
  | succ n ih =>
      rw [checkedPasses, ih]
      exact checkedPass_eq _

end ProofState

end Resolution
