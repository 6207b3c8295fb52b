import Resolution.Substitution
import Std.Data.ExtTreeSet

/-!
# Proof states and derivations

A proof attempt holds a growing list of clauses: the input first, then the accepted resolvents, each
with a derivation step that says where it came from. Clauses are numbered from 1 in steps and
reports; the pairs already tried are kept by their places in the list, counted from 0.

A step of a search has two parents. A step read from a checkpoint may list fewer or more; whoever
needs both parents is then told the number found.

To find the part of a derivation that a clause rests on, a walk starts from the number of the
clause, goes back along the parents of the steps and collects every clause number it meets. Parents
come before their step, which is checked on the way, so the walk ends. The input clauses always
belong to the slice and are not looked into. A slice is a derivation again once its clauses are
numbered densely.
-/

namespace Resolution

/-- One accepted resolvent: the numbers of its parents, the literals resolved on as they stand in
the parents, and the unifier. The search writes two parents and two literals; a step read from a
checkpoint may hold any number. -/
structure Step where
  resolvent : Clause
  parents : List Int
  literals : List Literal
  substitution : Substitution := ∅
  deriving DecidableEq, Repr

/-- Sets of pairs of integers, listed in lexicographic order. -/
abbrev PairSet := Std.ExtTreeSet (Int × Int) lexOrd.compare

namespace HaltReason

def refuted : String := "empty clause derived"

def saturated : String := "saturated"

def passLimit : String := "pass limit reached"

end HaltReason

/-- The step `derivation[i]` produced the clause numbered `numInput + i + 1`. -/
structure ProofState where
  clauses : List Clause := []
  derivation : List Step := []
  checked : PairSet := ∅
  numInput : Int := 0
  passes : Int := 0
  halted : Bool := false
  haltReason : String := ""

namespace ProofState

def ofClauses (clauses : List Clause) : ProofState :=
  { clauses, numInput := clauses.length }

/-- The leading `numInput` clauses. A negative number leaves out that many clauses at the end. -/
def inputClauses (s : ProofState) : List Clause :=
  s.clauses.take (if 0 ≤ s.numInput then s.numInput else s.clauses.length + s.numInput).toNat

/-- Is the empty clause the last one derived? -/
def isRefuted (s : ProofState) : Bool :=
  s.derivation.getLast?.any (·.resolvent.isEmpty)

/-- The number of the first empty clause. -/
def emptyClauseNumber? (s : ProofState) : Option Int :=
  (s.clauses.findIdx? Clause.isEmpty).map fun i => (i : Int) + 1

end ProofState

structure ParentCount where
  found : Nat
  deriving DecidableEq, Repr

def ParentCount.message (e : ParentCount) : String :=
  if e.found < 2 then s!"not enough values to unpack (expected 2, got {e.found})"
  else "too many values to unpack (expected 2)"

def Step.parentPair (step : Step) : Except ParentCount (Int × Int) :=
  match step.parents with
  | [p, q] => .ok (p, q)
  | parents => .error ⟨parents.length⟩

inductive SliceError where
  | parentCount (e : ParentCount)
  | laterParent (number : Int)
  | unnumbered (number : Int)
  | noStart
  deriving DecidableEq, Repr

namespace Derivation

/-- The step that produced the clause of a number. -/
def stepAt? (derivation : List Step) (numInput number : Int) : Option Step :=
  let place := number - (numInput + 1)
  if 0 ≤ place then derivation[place.toNat]? else none

theorem lt_of_stepAt?_eq_some {derivation : List Step} {numInput number : Int} {step : Step}
    (h : stepAt? derivation numInput number = some step) : numInput < number := by
  unfold stepAt? at h
  dsimp only at h
  split at h
  · omega
  · simp at h

/-- Adds the number of a clause and all that the clause rests on to the numbers seen; the second
parent of a step comes first. -/
def collect (derivation : List Step) (numInput number : Int) (seen : List Int) :
    Except SliceError (List Int) :=
  if (1 ≤ number ∧ number ≤ numInput) ∨ number ∈ seen then .ok seen
  else
    match _h : stepAt? derivation numInput number with
    | none => .ok (number :: seen)
    | some step =>
      match step.parentPair with
      | .error e => .error (.parentCount e)
      | .ok (p, q) =>
        if _later : number ≤ p ∨ number ≤ q then .error (.laterParent number)
        else
          match collect derivation numInput q (number :: seen) with
          | .error e => .error e
          | .ok seen => collect derivation numInput p seen
termination_by (number - numInput).toNat
decreasing_by
  all_goals
    have := lt_of_stepAt?_eq_some ‹stepAt? derivation numInput number = some step›
    omega

def inputNumbers (numInput : Int) : List Int :=
  (List.range numInput.toNat).map fun (i : Nat) => (i : Int) + 1

/-- The numbers of the clauses that a clause rests on, ascending, the input clauses among them. -/
def needed (derivation : List Step) (numInput start : Int) : Except SliceError (List Int) := do
  let seen ← collect derivation numInput start []
  return (inputNumbers numInput ++ seen).mergeSort fun a b => a ≤ b

/-- The place of a number among the numbers kept, counted from 1. -/
def renumber (numbers : List Int) (number : Int) : Except SliceError Int :=
  match numbers.idxOf? number with
  | some i => .ok (i + 1)
  | none => .error (.unnumbered number)

def renumberStep (numbers : List Int) (step : Step) : Except SliceError Step :=
  match step.parentPair with
  | .error e => .error (.parentCount e)
  | .ok (p, q) => do
    let p ← renumber numbers p
    let q ← renumber numbers q
    return { step with parents := [p, q] }

/-- The steps that a clause rests on, in order, numbered densely. -/
def minimize (derivation : List Step) (numInput : Int) (start : Option Int) :
    Except SliceError (List Step) :=
  match start with
  | none => .error .noStart
  | some start => do
    let numbers ← needed derivation numInput start
    let kept := derivation.zipIdx.filter fun entry => numbers.contains (numInput + entry.2 + 1)
    kept.mapM fun entry => renumberStep numbers entry.1

end Derivation

end Resolution
