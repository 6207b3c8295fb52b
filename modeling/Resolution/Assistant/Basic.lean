import Resolution.Host
import Resolution.Text.Identifier

/-!
# The assistant

A text service stands at both ends of the prover. As a formalizer it turns a problem in plain
language into a clause set, as an explainer it turns a report into an explanation. The service is
opened when it is first needed and stays open.

A text service likes to put its answer between lines of three backticks, the first with the name of
a language behind it. Of a clause set only the text between them counts.
-/

namespace Resolution

namespace Assistant

open Text

def fence : List Char := "```".toList

def dropClosingFence (body : List Char) : List Char :=
  if fence.isSuffixOf body then body.take (body.length - fence.length) else body

/-- Is the text behind an opening fence a tag, blank or an identifier? -/
def isTag (line : List Char) : Bool := allBlank line || isIdentifier (trim line)

/-- Drops the first line if it is a tag and some text follows it. -/
def dropTag (body : List Char) : List Char :=
  match body.dropWhile (· ≠ '\n') with
  | [] => body
  | _ :: rest => if !allBlank rest && isTag (body.takeWhile (· ≠ '\n')) then rest else body

def stripFenceChars (text : List Char) : List Char :=
  let text := trim text
  if fence.isPrefixOf text then trim (dropTag (dropClosingFence (text.drop fence.length)))
  else text

/-- The text without a surrounding fence and without blanks at its ends. -/
def stripFence (text : String) : String := String.ofList (stripFenceChars text.toList)

inductive Role where
  | formalizer
  | explainer
  deriving DecidableEq, Repr

def defaultModel : String := "claude-sonnet-4-20250514"

def formalizerInstructions : String :=
  "You are an expert assistant in formal logic.

Convert the following problem into a set of predicate-logic clauses ready
for the resolution method. Include the NEGATION of the statement to be
proved. Output ONLY the clauses, separated by commas. Write negation as ¬,
disjunction as \" V \", and use only the letters x, y, z, u, v, w for
variables.

Example problem: \"Socrates is a man. All men are mortal. Prove that
Socrates is mortal.\"
Example output: Человек(Сократ), ¬Человек(x) V Смертен(x), ¬Смертен(Сократ)

Problem:
"

def explainerInstructions : String :=
  "You are a logic teacher.

Below is a resolution proof produced by an automatic prover: the numbered
input clauses, the derivation steps (parents, resolved literals, unifier),
and the verdict. Explain the proof to a student, step by step, clearly and
in the same natural language as the clauses.

"

namespace Role

def prompt (role : Role) (text : String) : String :=
  match role with
  | formalizer => formalizerInstructions ++ text
  | explainer => explainerInstructions ++ text

def maxTokens : Role → Nat
  | formalizer => 500
  | explainer => 1500

/-- What is made of the answer of the service. -/
def finish (role : Role) (reply : String) : String :=
  let trimmed := String.ofList (trim reply.toList)
  match role with
  | formalizer => stripFence trimmed
  | explainer => trimmed

end Role

inductive Fault where
  | notInstalled
  | noContent
  deriving DecidableEq, Repr

def Fault.message : Fault → String
  | notInstalled => "pip install anthropic"
  | noContent => "list index out of range"

end Assistant

open Assistant

structure Assistant where
  role : Role
  key : Option String
  model : Option String := some defaultModel
  connected : Bool := false

namespace Assistant

variable {m : Type → Type} [Monad m] [Host m]

def connect (a : Assistant) : m Bool :=
  if a.connected then return true else Host.connect a.key

/-- Puts a text to the service. The assistant returned is connected unless the service is not
installed. -/
def ask (a : Assistant) (text : String) : m (Assistant × Except Fault String) := do
  if ← a.connect then
    let reply ← Host.ask
      { model := a.model, maxTokens := a.role.maxTokens, content := a.role.prompt text }
    let answer := match reply with
      | some reply => .ok (a.role.finish reply)
      | none => .error .noContent
    return ({ a with connected := true }, answer)
  else
    return (a, .error .notInstalled)

/-- Puts several texts to the service, one after the other. -/
def askAll (a : Assistant) : List String → m (List (Except Fault String))
  | [] => return []
  | text :: rest => do
    let (a, answer) ← a.ask text
    return answer :: (← a.askAll rest)

end Assistant

end Resolution
