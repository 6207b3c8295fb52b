import Resolution.Checkpoint
import Resolution.CommandLine.Options
import Resolution.Graph
import Resolution.Summary

/-!
# The command line program

The program takes its clauses from the command line, a file, a problem in plain language or a
sample, searches for a refutation and prints a report. On request it writes the derivation graph and
a checkpoint and has the report explained. An option with an empty value counts as not given.
-/

namespace Resolution.CommandLine

/-- A fault that the program does not handle. -/
inductive Failure where
  | file (e : FileError)
  | notText
  | service (e : Assistant.Fault)
  | noSample
  | summary (e : ParentCount)
  | report (e : ReportError)
  deriving DecidableEq, Repr

/-- How a run ends before its last line. -/
inductive Stop where
  | exit (status : Nat)
  | failure (e : Failure)
  deriving DecidableEq, Repr

inductive Outcome where
  | exit (status : Nat)
  | usage (e : UsageError)
  | help
  | failure (e : Failure)
  deriving DecidableEq, Repr

variable {m : Type → Type} [Monad m] [Host m]

abbrev Program (m : Type → Type) := ExceptT Stop m

def printLine (text : String) : Program m Unit := Host.out (m := m) (text ++ "\n")

/-- Complains and ends the run. -/
def exitWith {α : Type} (status : Nat) (complaint : String) : Program m α := do
  Host.err (m := m) (complaint ++ "\n")
  throw (.exit status)

def orFail {α : Type} (r : Except Failure α) : Program m α :=
  match r with
  | .ok a => pure a
  | .error e => throw (.failure e)

def consult (role : Assistant.Role) (model : Option String) (text : String) :
    Program m String := do
  let key ← Host.serviceKey (m := m)
  let assistant : Assistant := { role, key, model }
  match (← assistant.ask (m := m) text).2 with
  | .ok answer => return answer
  | .error .notInstalled => exitWith 1 (Assistant.Fault.message .notInstalled)
  | .error .noContent => throw (.failure (.service .noContent))

def readTextFile (path : String) : Program m String := do
  let bytes ← orFail ((← Host.readFile (m := m) path).mapError .file)
  match Text.ofFileBytes? bytes with
  | some text => return text
  | none => throw (.failure .notText)

def writeTextFile (path text : String) : Program m Unit := do
  orFail ((← Host.writeFile (m := m) path text).mapError .file)

/-- The clause set from whichever source was given. -/
def clauseText (o : Options) : Program m String := do
  if !o.clauses.isEmpty then
    return o.clauses
  else if !o.file.isEmpty then
    readTextFile o.file
  else if !o.problem.isEmpty then
    let clauses ← consult .formalizer o.model o.problem
    printLine s!"Formalized: {clauses}"
    return clauses
  else
    match o.sample with
    | some sample => return sample.clauses
    | none => throw (.failure .noSample)

def requireKey (o : Options) : Program m Unit := do
  if !o.problem.isEmpty || o.explain then
    let key ← Host.serviceKey (m := m)
    if key.all String.isEmpty then
      exitWith 1 "ANTHROPIC_API_KEY is not set"

def initialState (text : String) : Program m ProofState :=
  match parseClauses text with
  | .ok clauses => return .ofClauses clauses
  | .error e => exitWith 2 s!"Parse error: {e.message}"

def exportGraph (s : ProofState) (path : String) : Program m Unit := do
  writeTextFile path s.graph
  Host.out (m := m) (Graph.exportNotice path)

def saveState (s : ProofState) (path : String) : Program m Unit := do
  writeTextFile path s.save
  printLine s!"State saved to {path}"

def explain (o : Options) (report : String) : Program m Unit := do
  let explanation ← consult .explainer o.model report
  printLine s!"\n{Report.rule}"
  printLine explanation

def runOptions (o : Options) : Program m Unit := do
  requireKey o
  let start ← initialState (← clauseText o)
  let run := start.run o.limit
  let s := run.state
  if !o.quiet then
    Host.out (m := m) run.logText
    Host.out (m := m) (← orFail (s.summary.mapError .summary))
  let report ← orFail ((s.report o.fullLog).mapError .report)
  printLine ""
  printLine report
  if !o.dot.isEmpty then exportGraph s o.dot
  if !o.save.isEmpty then saveState s o.save
  if o.explain then explain o report

/-- Runs the program on the arguments of a command line. -/
def execute (args : List String) : m Outcome :=
  match parse args with
  | .error e => return .usage e
  | .ok .help => return .help
  | .ok (.run options) => do
    match ← (runOptions options).run with
    | .ok () => return .exit 0
    | .error (.exit status) => return .exit status
    | .error (.failure e) => return .failure e

end Resolution.CommandLine
