import Resolution.ClauseText
import Resolution.Derivation

/-!
# Sample problems

Named clause sets to try the prover on. Where a sample has a goal, its negation is among the
clauses.
-/

namespace Resolution

structure Sample where
  name : String
  clauses : String
  provable : Bool
  description : String
  deriving DecidableEq, Repr

namespace Sample

def socrates : Sample where
  name := "socrates"
  clauses := "Человек(Сократ), ¬Человек(x) V Смертен(x), ¬Смертен(Сократ)"
  provable := true
  description := "Symbolic resolution: Сократ is mortal"

def chain : Sample where
  name := "chain"
  clauses :=
    "knows(alice, bob), " ++
    "¬knows(x, y) V trusts(x, y), " ++
    "¬trusts(x, y) V cooperates(x, y), " ++
    "¬cooperates(x, y) V builds_with(x, y), " ++
    "¬builds_with(alice, bob)"
  provable := true
  description := "Multi-step resolution: prove a chain of implications"

def unrelated : Sample where
  name := "unrelated"
  clauses := "Человек(Сократ), Смертен(Платон)"
  provable := false
  description := "No complementary predicates: saturates immediately"

def duplicate : Sample where
  name := "duplicate"
  clauses := "Человек(Сократ), Человек(Сократ), ¬Человек(x) V Смертен(x)"
  provable := false
  description := "Repeated input fact: duplicate resolvents are suppressed"

/-- Both resolvents bind `x` to `a` and hold a literal next to its negation. -/
def tautology : Sample where
  name := "tautology"
  clauses := "¬P(x) V Q(x), P(a) V ¬Q(a)"
  provable := false
  description := "Every resolvent is a tautology and gets discarded"

def all : List Sample := [socrates, chain, unrelated, duplicate, tautology]

def find? (name : String) : Option Sample := all.find? (·.name = name)

/-- The state in which a search for the sample starts. -/
def state (sample : Sample) : Except ParseError ProofState := do
  return .ofClauses (← parseClauses sample.clauses)

end Sample

end Resolution
