import Resolution.CommandLine.Program

/-!
# The executable

The program in the real surroundings: files, standard streams and environment. No text service is
linked in, so the options that need one end with a complaint.
-/

namespace Resolution

/-- The fault behind an error of the system; faults of no other kind are denials. -/
def fileFaultOf : IO.Error → FileFault
  | .noFileOrDirectory .. => .missing
  | .inappropriateType _ code _ => if code = 21 then .isDirectory else .notDirectory
  | .invalidArgument _ code _ => if code = 22 then .nullCharacter else .nameTooLong
  | .resourceExhausted .. => .noSpace
  | _ => .denied

instance : Host IO where
  serviceKey := IO.getEnv "ANTHROPIC_API_KEY"
  connect _ := return false
  ask _ := return none
  readFile path := do
    try
      return .ok (← IO.FS.readBinFile path)
    catch e =>
      return .error ⟨fileFaultOf e, path⟩
  writeFile path text := do
    try
      return .ok (← IO.FS.writeFile path text)
    catch e =>
      return .error ⟨fileFaultOf e, path⟩
  out text := IO.print text
  err text := IO.eprint text

namespace CommandLine

def usageText : String :=
  "usage: [--clauses CLAUSES | --file FILE | --problem PROBLEM | --domain NAME] [--full-log]
       [--max-passes N] [--save FILE] [--dot FILE] [--explain] [--model MODEL] [--quiet]
"

def UsageError.message : UsageError → String
  | ambiguous => "an option name is ambiguous"
  | unexpectedValue => "an option that takes no value was given one"
  | missingValue => "an option lacks its value"
  | invalidValue => "an option has an invalid value"
  | conflict => "only one source of clauses may be given"
  | leftOver => "an argument is not recognized"

def Failure.message : Failure → String
  | file e => e.message
  | notText => "the file is not valid UTF-8"
  | service e => e.message
  | noSample => "no sample is named"
  | summary e => e.message
  | report _ => "the derivation cannot be reported"

def Outcome.finish : Outcome → IO UInt32
  | exit status => return status.toUInt32
  | help => do
    IO.print usageText
    return 0
  | usage e => do
    IO.eprint (usageText ++ "error: " ++ e.message ++ "\n")
    return 2
  | failure e => do
    IO.eprint (e.message ++ "\n")
    return 1

end CommandLine

end Resolution

def main (args : List String) : IO UInt32 := do
  (← Resolution.CommandLine.execute args).finish
