/-!
# Terms, literals and clauses

Terms are flat: a term is a variable or a constant, and both are known by their names. The same name
may belong to a variable and to a constant, which are then different terms.

A literal is a predicate applied to terms, or the negation of one. Its text is what a clause text
holds for it: a negation sign, the name, and the arguments in parentheses if there are any.

A clause is a disjunction of literals. The order of its literals is kept for display; two clauses
are the same clause when they hold the same literals equally often. The clause without literals is
the contradiction that a refutation derives.
-/

namespace Resolution

inductive Term where
  | var (name : String)
  | const (name : String)
  deriving DecidableEq, Repr

namespace Term

def name : Term → String
  | var x => x
  | const a => a

/-- The names that a clause text reads as variables. -/
def variableNames : List String := ["x", "y", "z", "u", "v", "w", "p", "s"]

/-- A name in a clause text is a variable if it is one of the variable names, else a constant. -/
def ofName (name : String) : Term :=
  if name ∈ variableNames then var name else const name

@[simp]
theorem name_ofName (name : String) : (ofName name).name = name := by
  unfold ofName
  split <;> rfl

end Term

structure Literal where
  name : String
  args : List Term := []
  negated : Bool := false
  deriving DecidableEq, Repr

namespace Literal

def arity (l : Literal) : Nat := l.args.length

/-- The same atom with the other sign. -/
def negate (l : Literal) : Literal := { l with negated := !l.negated }

@[simp]
theorem negate_negate (l : Literal) : l.negate.negate = l := by
  simp [negate]

def text (l : Literal) : String :=
  let sign := if l.negated then "¬" else ""
  let list := if l.args.isEmpty then "" else "(" ++ ", ".intercalate (l.args.map Term.name) ++ ")"
  sign ++ l.name ++ list

end Literal

structure Clause where
  literals : List Literal := []
  deriving DecidableEq, Repr

namespace Clause

def isEmpty (c : Clause) : Bool := c.literals.isEmpty

def name (c : Clause) : String :=
  if c.isEmpty then "□" else " V ".intercalate (c.literals.map Literal.text)

/-- Does the clause hold a literal together with its negation? -/
def isTautology (c : Clause) : Bool :=
  c.literals.any fun l => c.literals.contains l.negate

/-- Equality up to the order of the literals. -/
def same (c d : Clause) : Bool := c.literals.isPerm d.literals

theorem same_iff {c d : Clause} : c.same d = true ↔ c.literals.Perm d.literals :=
  List.isPerm_iff

theorem isTautology_iff {c : Clause} :
    c.isTautology = true ↔ ∃ l ∈ c.literals, l.negate ∈ c.literals := by
  simp [isTautology]

end Clause

end Resolution
