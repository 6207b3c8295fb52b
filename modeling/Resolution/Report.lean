import Resolution.ClauseText
import Resolution.Search.Run

/-!
# Reports

A report lists the input clauses, the derivation and the verdict. A refutation is shown by the steps
that the empty clause rests on; the whole derivation is shown when there is no refutation, and in
front of a refutation on request.
-/

namespace Resolution

inductive ReportError where
  | slice (e : SliceError)
  | chain (e : CyclicChain)
  | shortStep
  deriving DecidableEq, Repr

namespace Report

def clausesHeader : String := "=== 1. Clause set (S0) ==="

def derivationHeader : String := "=== 2. Derivation ==="

def shortHeader : String := "====== Short derivation ======"

def resultHeader : String := "=== 3. Result ==="

def proved : String := "Proved: the empty clause was derived."

def notProved : String := "Not proved: resolvents exhausted, the empty clause was not derived."

def stopped : String :=
  "Not proved: the search hit its pass limit before the resolvents were exhausted."

def numberedName (number : Int) (c : Clause) : String := s!"{number}. {c.name}"

/-- The first two entries of a list that ought to have two. -/
def firstTwo {α : Type} : List α → Except ReportError (α × α)
  | a :: b :: _ => .ok (a, b)
  | _ => .error .shortStep

/-- A step under its clause number. -/
def stepLines (number : Int) (step : Step) : Except ReportError (List String) := do
  let (p, q) ← firstTwo step.parents
  let (l, m) ← firstTwo step.literals
  let unifier ← step.substitution.text.mapError .chain
  return [numberedName number step.resolvent,
    s!"   - Parents: {p} and {q}",
    s!"   - Literals: {l.text} and {m.text}",
    s!"   - Unifier σ: {unifier}"]

/-- Steps numbered from the first clause after the input. -/
def derivationLines (numInput : Int) (steps : List Step) : Except ReportError (List String) := do
  let blocks ← steps.zipIdx.mapM fun entry => stepLines (numInput + entry.2 + 1) entry.1
  return blocks.flatten

def inputLines (s : ProofState) : List String :=
  s.inputClauses.zipIdx.map fun entry => numberedName (entry.2 + 1) entry.1

def verdict (s : ProofState) : String :=
  if s.isRefuted then proved
  else if s.haltReason = HaltReason.passLimit then stopped
  else notProved

/-- What stands between the header of the derivation and the result. -/
def derivationSection (s : ProofState) (fullLog : Bool) : Except ReportError (List String) :=
  if s.isRefuted then do
    let full ←
      if fullLog then do
        let log ← derivationLines s.numInput s.derivation
        pure (log ++ ["", shortHeader, ""])
      else pure []
    let short ← (Derivation.minimize s.derivation s.numInput s.emptyClauseNumber?).mapError .slice
    return full ++ (← derivationLines s.numInput short)
  else
    derivationLines s.numInput s.derivation

def lines (s : ProofState) (fullLog : Bool) : Except ReportError (List String) := do
  let derivation ← derivationSection s fullLog
  return [clausesHeader] ++ inputLines s ++ ["", derivationHeader] ++ derivation ++
    ["", resultHeader, verdict s]

end Report

def ProofState.report (s : ProofState) (fullLog : Bool) : Except ReportError String := do
  return "\n".intercalate (← Report.lines s fullLog)

inductive ProveError where
  | parse (e : ParseError)
  | report (e : ReportError)
  deriving DecidableEq, Repr

/-- Reads a clause set and searches for a refutation. -/
def search (text : String) (limit : Option Int) : Except ParseError Run := do
  return (ProofState.ofClauses (← parseClauses text)).run limit

/-- The report on a proof attempt and what was printed while searching. -/
structure Attempt where
  report : String
  trace : String
  deriving DecidableEq, Repr

/-- Reads a clause set, searches for a refutation and reports. Only a verbose attempt prints. -/
def prove (text : String) (fullLog : Bool) (limit : Option Int) (verbose : Bool) :
    Except ProveError Attempt := do
  let run ← (search text limit).mapError .parse
  let report ← (run.state.report fullLog).mapError .report
  return { report, trace := if verbose then run.logText else "" }

end Resolution
