import Resolution.Derivation
import Resolution.Json

/-!
# Checkpoints

A proof state is saved as JSON text and can be loaded to go on with the search. The fields of an
object are written in a fixed order and may be read in any; unknown fields are ignored.
-/

namespace Resolution

inductive CheckpointError where
  | malformed
  | missing (key : String)
  | wrongShape
  deriving DecidableEq, Repr

namespace Checkpoint

def ofTerm : Term → Json
  | .var x => .obj [("var", .str x)]
  | .const a => .obj [("const", .str a)]

def ofLiteral (l : Literal) : Json :=
  .obj [("name", .str l.name), ("args", .arr (l.args.map ofTerm)), ("negated", .bool l.negated)]

def ofLiterals (ls : List Literal) : Json := .arr (ls.map ofLiteral)

def ofClause (c : Clause) : Json := ofLiterals c.literals

def ofBinding (b : String × Term) : Json := .arr [.str b.1, ofTerm b.2]

def ofSubstitution (σ : Substitution) : Json := .arr (σ.bindings.map ofBinding)

def ofStep (step : Step) : Json :=
  .obj
    [("resolvent", ofClause step.resolvent), ("parents", .ofInts step.parents),
     ("literals", ofLiterals step.literals), ("substitution", ofSubstitution step.substitution)]

def ofPair (p : Int × Int) : Json := .ofInts [p.1, p.2]

def ofState (s : ProofState) : Json :=
  .obj
    [("clauses", .arr (s.clauses.map ofClause)), ("derivation", .arr (s.derivation.map ofStep)),
     ("checked_pairs", .arr (s.checked.toList.map ofPair)), ("num_input", .int s.numInput),
     ("passes", .int s.passes), ("halted", .bool s.halted), ("halt_reason", .str s.haltReason)]

abbrev Decoder := Except CheckpointError

def toStr : Json → Decoder String
  | .str s => .ok s
  | _ => .error .wrongShape

def toBool : Json → Decoder Bool
  | .bool b => .ok b
  | _ => .error .wrongShape

def toInt : Json → Decoder Int
  | .int n => .ok n
  | _ => .error .wrongShape

def toItems : Json → Decoder (List Json)
  | .arr items => .ok items
  | _ => .error .wrongShape

def toListOf {α : Type} (read : Json → Decoder α) (j : Json) : Decoder (List α) := do
  (← toItems j).mapM read

/-- The value of a field that has to be there. -/
def required {α : Type} (key : String) (read : Json → Decoder α) (j : Json) : Decoder α :=
  match j.get? key with
  | some value => read value
  | none => .error (.missing key)

/-- The value of a field that may be left out. -/
def optional {α : Type} (key : String) (otherwise : α) (read : Json → Decoder α) (j : Json) :
    Decoder α :=
  match j.get? key with
  | some value => read value
  | none => .ok otherwise

/-- An object with both fields is a variable. -/
def toTerm (j : Json) : Decoder Term :=
  match j.get? "var" with
  | some name => Term.var <$> toStr name
  | none => Term.const <$> required "const" toStr j

def toLiteral (j : Json) : Decoder Literal := do
  let name ← required "name" toStr j
  let args ← required "args" (toListOf toTerm) j
  let negated ← optional "negated" false toBool j
  return { name, args, negated }

def toClause (j : Json) : Decoder Clause := Clause.mk <$> toListOf toLiteral j

def toBinding (j : Json) : Decoder (String × Term) := do
  match ← toItems j with
  | [name, term] => return (← toStr name, ← toTerm term)
  | _ => .error .wrongShape

def toSubstitution (j : Json) : Decoder Substitution :=
  Substitution.ofList <$> toListOf toBinding j

def toStep (j : Json) : Decoder Step := do
  let resolvent ← required "resolvent" toClause j
  let parents ← required "parents" (toListOf toInt) j
  let literals ← required "literals" (toListOf toLiteral) j
  let substitution ← required "substitution" toSubstitution j
  return { resolvent, parents, literals, substitution }

def toPair (j : Json) : Decoder (Int × Int) := do
  match ← toListOf toInt j with
  | [a, b] => return (a, b)
  | _ => .error .wrongShape

def toPairSet (j : Json) : Decoder PairSet :=
  (fun pairs => Std.ExtTreeSet.ofList pairs _) <$> toListOf toPair j

def toState (j : Json) : Decoder ProofState := do
  let clauses ← required "clauses" (toListOf toClause) j
  let derivation ← required "derivation" (toListOf toStep) j
  let checked ← optional "checked_pairs" ∅ toPairSet j
  let numInput ← required "num_input" toInt j
  let passes ← optional "passes" 0 toInt j
  let halted ← optional "halted" false toBool j
  let haltReason ← optional "halt_reason" "" toStr j
  return { clauses, derivation, checked, numInput, passes, halted, haltReason }

end Checkpoint

namespace ProofState

/-- The text of a checkpoint. -/
def save (s : ProofState) : String := (Checkpoint.ofState s).render

def load (text : String) : Except CheckpointError ProofState :=
  match Json.parse? text with
  | some j => Checkpoint.toState j
  | none => .error .malformed

end ProofState

end Resolution
