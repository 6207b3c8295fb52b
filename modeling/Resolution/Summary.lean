import Resolution.Report

/-!
# What is printed of a proof state

Rules frame what is printed. Between two of them stands either the report or a summary: how many
passes were made, every clause with the parents of the derived ones, and why the search halted.
-/

namespace Resolution

/-- The line that frames printed reports. -/
def Report.rule : String := String.ofList (List.replicate 60 '=')

/-- The report as it is printed, between two rules. -/
def ProofState.framedReport (s : ProofState) (fullLog : Bool) : Except ReportError String := do
  let report ← s.report fullLog
  return s!"\n{Report.rule}\n{report}\n{Report.rule}\n"

namespace Summary

/-- Where a derived clause comes from; nothing for the others. -/
def origin (s : ProofState) (place : Nat) : Except ParentCount String :=
  match Derivation.stepAt? s.derivation s.numInput (place + 1) with
  | none => .ok ""
  | some step => do
    let (p, q) ← step.parentPair
    return s!" (from {p} + {q})"

def clauseLine (s : ProofState) (c : Clause) (place : Nat) : Except ParentCount String := do
  let source ← origin s place
  return s!"  {Report.numberedName (place + 1) c}{source}"

def haltLines (s : ProofState) : List String :=
  if s.halted then [s!"Halted: {s.haltReason}"] else []

end Summary

def ProofState.summary (s : ProofState) : Except ParentCount String := do
  let clauses ← s.clauses.zipIdx.mapM fun entry => Summary.clauseLine s entry.1 entry.2
  let head := ["", Report.rule, s!"Passes: {s.passes}",
    s!"Clauses ({s.clauses.length}, {s.numInput} input):"]
  let lines := head ++ clauses ++ Summary.haltLines s ++ [Report.rule]
  return String.join (lines.map (· ++ "\n"))

end Resolution
