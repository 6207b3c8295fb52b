import Resolution.Clause
import Resolution.Text.Quoted

/-!
# Clause texts

The grammar of a clause set, blanks allowed around every part:

    clause set := clause ("," clause)*
    clause     := literal (("V" | "∨") literal)*
    literal    := ("¬" | "~")* name ["(" [argument ("," argument)*] ")"]

A clause set is cut at commas and a clause at disjunction signs, in both cases only where no
parenthesis is open. One walk serves both: a rule decides whether the character at hand ends the
piece read so far. The walk keeps the piece with its latest character first.

A text that cannot be read is answered by the fault and the fragment in which it was found. The
readers work on lists of characters; the functions on strings stand at the end.
-/

namespace Resolution

inductive ParseFault where
  | unopened
  | unclosed
  | emptyLiteral
  | malformedLiteral
  | emptyArgument
  | nestedTerm
  | emptyClause
  | noClauses
  deriving DecidableEq, Repr

def ParseFault.text : ParseFault → String
  | unopened => "unbalanced ')'"
  | unclosed => "unbalanced '('"
  | emptyLiteral => "empty literal"
  | malformedLiteral => "cannot parse literal"
  | emptyArgument => "empty argument in literal"
  | nestedTerm => "nested terms are not supported"
  | emptyClause => "empty clause"
  | noClauses => "no clauses given"

structure ParseError where
  fault : ParseFault
  fragment : String
  deriving DecidableEq, Repr

/-- An empty fragment is left out of the message. -/
def ParseError.message (e : ParseError) : String :=
  if e.fragment.isEmpty then e.fault.text
  else e.fault.text ++ ": " ++ Text.quoted e.fragment

namespace ClauseText

open Text

inductive Imbalance where
  | unopened (piece : List Char)
  | unclosed (piece : List Char)
  deriving DecidableEq, Repr

/-- Decides a cut from the piece so far (latest character first), the character at hand and the
text after it. -/
abbrev CutRule := List Char → Char → List Char → Bool

def piecesFrom (cuts : CutRule) :
    Nat → List Char → List Char → Except Imbalance (List (List Char))
  | 0, piece, [] => .ok [piece.reverse]
  | _ + 1, piece, [] => .error (.unclosed piece.reverse)
  | depth, piece, c :: rest =>
    if c = '(' then
      piecesFrom cuts (depth + 1) (c :: piece) rest
    else if c = ')' then
      match depth with
      | 0 => .error (.unopened (c :: piece).reverse)
      | outer + 1 => piecesFrom cuts outer (c :: piece) rest
    else if depth = 0 && cuts piece c rest then
      (piecesFrom cuts 0 [] rest).map (piece.reverse :: ·)
    else
      piecesFrom cuts depth (c :: piece) rest

/-- The pieces between the cuts, blanks included. -/
def pieces (cuts : CutRule) (text : List Char) : Except Imbalance (List (List Char)) :=
  piecesFrom cuts 0 [] text

/-- The fragment is the piece in which the imbalance shows, or the whole text if that piece is
blank. -/
def Imbalance.toParseError (text : List Char) : Imbalance → ParseError
  | unopened piece => ⟨.unopened, String.ofList (trim piece)⟩
  | unclosed piece =>
    ⟨.unclosed, String.ofList (if allBlank piece then trim text else trim piece)⟩

def trimmedPieces (cuts : CutRule) (text : List Char) : Except ParseError (List (List Char)) :=
  match pieces cuts text with
  | .ok raw => .ok (raw.map trim)
  | .error imbalance => .error (imbalance.toParseError text)

def cutsClauses : CutRule := fun _ c _ => c = ','

def isNegationMark (c : Char) : Bool := c = '¬' || c = '~'

/-- The sign `∨` always cuts. The letter `V` cuts when it stands alone: after a blank or a closing
parenthesis, before a blank, a negation mark or the end, and behind some text of its piece. Any
other `V` belongs to a name. -/
def cutsLiterals : CutRule := fun piece c rest =>
  c = '∨' ||
    (c = 'V' && !allBlank piece &&
      (match piece with
        | [] => false
        | previous :: _ => isBlank previous || previous = ')') &&
      (match rest with
        | [] => true
        | next :: _ => isBlank next || isNegationMark next))

def isParenthesis (c : Char) : Bool := c = '(' || c = ')'

/-- The characters of a predicate name. -/
def isNameChar (c : Char) : Bool := !isParenthesis c && c ≠ ',' && !isBlank c

def readArgument (piece : List Char) : Except ParseFault Term :=
  if allBlank piece then .error .emptyArgument
  else if piece.any isParenthesis then .error .nestedTerm
  else .ok (Term.ofName (String.ofList (trim piece)))

/-- What stands between the parentheses of a literal. -/
def readArguments (inner : List Char) : Except ParseFault (List Term) :=
  if allBlank inner then .ok [] else (inner.splitOn ',').mapM readArgument

/-- What follows a predicate name: nothing, or an argument list that ends the text. -/
def readArgumentList : List Char → Except ParseFault (List Term)
  | [] => .ok []
  | c :: rest =>
    if c = '(' && rest.getLast? = some ')' then readArguments rest.dropLast
    else .error .malformedLiteral

/-- Reads a literal from a trimmed text: the signs, the name, the arguments. -/
def literalOf (text : List Char) : Except ParseFault Literal :=
  let isSign c := isNegationMark c || isBlank c
  let signs := text.takeWhile isSign
  let body := text.dropWhile isSign
  let name := body.takeWhile isNameChar
  if body.isEmpty then .error .emptyLiteral
  else if name.isEmpty then .error .malformedLiteral
  else
    (readArgumentList ((body.dropWhile isNameChar).dropWhile isBlank)).map fun args =>
      { name := String.ofList name, args, negated := signs.countP isNegationMark % 2 = 1 }

def readLiteral (text : List Char) : Except ParseError Literal :=
  match literalOf (trim text) with
  | .ok l => .ok l
  | .error fault => .error ⟨fault, String.ofList (trim text)⟩

def readClause (text : List Char) : Except ParseError Clause :=
  if allBlank text then .error ⟨.emptyClause, String.ofList text⟩
  else do
    let parts ← trimmedPieces cutsLiterals text
    return ⟨← parts.mapM readLiteral⟩

def readClauseSet (text : List Char) : Except ParseError (List Clause) :=
  if allBlank text then .error ⟨.noClauses, ""⟩
  else do
    let parts ← trimmedPieces cutsClauses text
    parts.mapM readClause

end ClauseText

open ClauseText

/-- The clause texts of a clause set. -/
def splitClauses (text : String) : Except ParseError (List String) :=
  (trimmedPieces cutsClauses text.toList).map (·.map String.ofList)

/-- The literal texts of a clause. -/
def splitLiterals (text : String) : Except ParseError (List String) :=
  (trimmedPieces cutsLiterals text.toList).map (·.map String.ofList)

def Literal.parse (text : String) : Except ParseError Literal := readLiteral text.toList

def Clause.parse (text : String) : Except ParseError Clause := readClause text.toList

/-- Reads a whole clause set. -/
def parseClauses (text : String) : Except ParseError (List Clause) :=
  readClauseSet text.toList

end Resolution
