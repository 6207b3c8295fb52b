import Resolution.Assistant.Basic
import Resolution.Sample

/-!
# Command line options

Options are long, but for a short form of the help. Those that take a value take it behind an equals
sign or from the next argument. A beginning of an option's name stands for it if no other option
begins so. An argument that starts with a dash is no value, unless it looks like a negative number
or holds a space. Two bare dashes behind an equals sign give an option without a value. At most one
source of clauses may be given, and no argument may be left over.
-/

namespace Resolution.CommandLine

inductive OptionName where
  | help
  | clauses
  | file
  | problem
  | sample
  | fullLog
  | maxPasses
  | save
  | dot
  | explain
  | model
  | quiet
  deriving DecidableEq, Repr

namespace OptionName

/-- The spellings of the options. -/
def table : List (String × OptionName) :=
  [("-h", help), ("--help", help), ("--clauses", clauses), ("--file", file), ("--problem", problem),
   ("--domain", sample), ("--full-log", fullLog), ("--max-passes", maxPasses), ("--save", save),
   ("--dot", dot), ("--explain", explain), ("--model", model), ("--quiet", quiet)]

def takesValue : OptionName → Bool
  | help | fullLog | explain | quiet => false
  | _ => true

/-- The sources of clauses, which exclude each other. -/
def isSource : OptionName → Bool
  | clauses | file | problem | sample => true
  | _ => false

end OptionName

/-- The sample and the model are `none` when their options were given without a value. -/
structure Options where
  clauses : String := ""
  file : String := ""
  problem : String := ""
  sample : Option Sample := some Sample.socrates
  fullLog : Bool := false
  maxPasses : Int := 100
  save : String := ""
  dot : String := ""
  explain : Bool := false
  model : Option String := some Assistant.defaultModel
  quiet : Bool := false
  deriving DecidableEq, Repr

/-- A limit of zero is no limit. -/
def Options.limit (o : Options) : Option Int := if o.maxPasses = 0 then none else some o.maxPasses

/-- What an argument is taken for. -/
inductive Argument where
  | option (name : OptionName) (value : Option String)
  | value (text : String)
  | stray
  deriving DecidableEq, Repr

/-- A minus sign and digits, with or without a point among them. One line feed may follow. -/
def looksNegative (text : List Char) : Bool :=
  let isDigit c := (Text.digitValue? c).isSome
  match text with
  | '-' :: rest =>
    let number := if rest.getLast? = some '\n' then rest.dropLast else rest
    let whole := number.takeWhile isDigit
    match number.dropWhile isDigit with
    | [] => !whole.isEmpty
    | '.' :: fraction => !fraction.isEmpty && fraction.all isDigit
    | _ => false
  | _ => false

/-- The part before the first equals sign and, if there is one, the part behind it. -/
def splitAtEquals (text : List Char) : List Char × Option (List Char) :=
  match text.dropWhile (· ≠ '=') with
  | [] => (text, none)
  | _ :: rest => (text.takeWhile (· ≠ '='), some rest)

/-- The options that an argument may stand for, with the value that is part of the argument. -/
def readings (text : List Char) : List Argument :=
  match text with
  | '-' :: '-' :: _ =>
    let (name, value) := splitAtEquals text
    let value := value.map String.ofList
    match OptionName.table.lookup (String.ofList name) with
    | some exact => [.option exact value]
    | none =>
      (OptionName.table.filter fun entry => name.isPrefixOf entry.1.toList).map fun entry =>
        .option entry.2 value
  | '-' :: 'h' :: rest =>
    [.option .help (if rest.all (· = 'h') then none else some (String.ofList rest))]
  | _ => []

/-- An argument in front of a bare `--`; `none` if it may stand for several options. -/
def classify (text : String) : Option Argument :=
  let chars := text.toList
  match readings chars with
  | _ :: _ :: _ => none
  | [argument] => some argument
  | [] =>
    if chars.head? ≠ some '-' || chars.length = 1 || looksNegative chars || chars.contains ' ' then
      some (.value text)
    else some .stray

/-- A bare `--` and what follows it are left over, whatever they look like. -/
def classifyAll : List String → Option (List Argument)
  | [] => some []
  | text :: rest =>
    if text = "--" then some (.stray :: rest.map fun _ => .stray)
    else do
      let argument ← classify text
      let arguments ← classifyAll rest
      return argument :: arguments

inductive UsageError where
  | ambiguous
  | unexpectedValue
  | missingValue
  | invalidValue
  | conflict
  | leftOver
  deriving DecidableEq, Repr

/-- What the command line asks for. -/
inductive Command where
  | help
  | run (options : Options)
  deriving DecidableEq, Repr

namespace Options

/-- An option without a value counts as empty; as a limit it means no limit. -/
def setValue (o : Options) (name : OptionName) (value : Option String) :
    Except UsageError Options :=
  match name with
  | .clauses => .ok { o with clauses := value.getD "" }
  | .file => .ok { o with file := value.getD "" }
  | .problem => .ok { o with problem := value.getD "" }
  | .sample =>
    match value with
    | none => .ok { o with sample := none }
    | some name =>
      match Sample.find? name with
      | some sample => .ok { o with sample := some sample }
      | none => .error .invalidValue
  | .maxPasses =>
    match value with
    | none => .ok { o with maxPasses := 0 }
    | some text =>
      match Text.readInt? text.toList with
      | some maxPasses => .ok { o with maxPasses }
      | none => .error .invalidValue
  | .save => .ok { o with save := value.getD "" }
  | .dot => .ok { o with dot := value.getD "" }
  | .model => .ok { o with model := value }
  | .help | .fullLog | .explain | .quiet => .error .unexpectedValue

def setFlag (o : Options) (name : OptionName) : Options :=
  match name with
  | .fullLog => { o with fullLog := true }
  | .explain => { o with explain := true }
  | .quiet => { o with quiet := true }
  | _ => o

end Options

/-- The options taken so far, the source among them and whether an argument was left over. -/
structure Taken where
  options : Options := {}
  source : Option OptionName := none
  leftOver : Bool := false

namespace Taken

/-- Two bare dashes, which only an equals sign can bring here, are no value. -/
def take (t : Taken) (name : OptionName) (value : String) : Except UsageError Taken := do
  let options ← t.options.setValue name (if value = "--" then none else some value)
  if name.isSource then
    if t.source.any (· ≠ name) then throw .conflict
    return { t with options, source := some name }
  return { t with options }

end Taken

/-- Takes the arguments from left to right. Those left over are complained of at the end only. -/
def takeAll (t : Taken) : List Argument → Except UsageError Command
  | [] => if t.leftOver then .error .leftOver else .ok (.run t.options)
  | .option .help none :: _ => .ok .help
  | .option name (some value) :: rest => do
    if !name.takesValue then throw .unexpectedValue
    takeAll (← t.take name value) rest
  | .option name none :: .value value :: rest => do
    if name.takesValue then takeAll (← t.take name value) rest
    else takeAll { t with options := t.options.setFlag name, leftOver := true } rest
  | .option name none :: rest =>
    if name.takesValue then .error .missingValue
    else takeAll { t with options := t.options.setFlag name } rest
  | .value _ :: rest => takeAll { t with leftOver := true } rest
  | .stray :: rest => takeAll { t with leftOver := true } rest

/-- Reads the arguments of the command line. -/
def parse (args : List String) : Except UsageError Command :=
  match classifyAll args with
  | none => .error .ambiguous
  | some arguments => takeAll {} arguments

end Resolution.CommandLine
