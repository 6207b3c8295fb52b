/-!
# JSON values and their texts

Objects keep their fields in order. A field may be given more than once; its last value counts.
Numbers other than integers are kept as they are written, since no reader needs their value.

In writing, every element of an array or object stands on a line of its own, indented by two spaces
a level; an empty array or object is written without a break. In strings the quotation mark, the
backslash and the control characters below U+0020 are escaped, and every other character stands for
itself.

The readers take a list of characters and return a value with the characters after it. Values nest,
so the three mutual readers count down a number of steps; twice the length of the text is enough.
Besides numbers the words `NaN`, `Infinity` and `-Infinity` are accepted.
-/

namespace Resolution

inductive Json where
  | null
  | bool (value : Bool)
  | int (value : Int)
  | decimal (text : String)
  | str (value : String)
  | arr (items : List Json)
  | obj (fields : List (String × Json))
  deriving Inhabited, Repr

namespace Json

/-- The last value given to a field of an object; `none` for any other value. -/
def get? (key : String) : Json → Option Json
  | obj fields => fields.reverse.lookup key
  | _ => none

/-- Gives fields of an object new values. -/
def override (fields : List (String × Json)) : Json → Json
  | obj old => obj (old ++ fields)
  | value => value

def ofInts (l : List Int) : Json := arr (l.map int)

def hexDigit (n : Nat) : Char := Nat.digitChar (n % 16)

/-- Escapes for the characters that have one of their own. -/
def shortEscapes : List (Char × Char) :=
  [('\x22', '\x22'), ('\\', '\\'), ('\n', 'n'), ('\r', 'r'), ('\t', 't'), ('\x08', 'b'),
   ('\x0c', 'f')]

def escaped (c : Char) : List Char :=
  match shortEscapes.lookup c with
  | some letter => ['\\', letter]
  | none =>
    if c.toNat < 0x20 then
      ['\\', 'u', '0', '0', hexDigit (c.toNat / 16), hexDigit c.toNat]
    else [c]

def stringChars (s : String) : List Char :=
  '\x22' :: (s.toList.flatMap escaped ++ ['\x22'])

def lineBreak (depth : Nat) : List Char := '\n' :: List.replicate (2 * depth) ' '

mutual

/-- The text of a value that stands at the given depth. -/
def chars (depth : Nat) : Json → List Char
  | null => "null".toList
  | bool true => "true".toList
  | bool false => "false".toList
  | int value => (toString value).toList
  | decimal text => text.toList
  | str value => stringChars value
  | arr [] => ['[', ']']
  | arr (first :: rest) =>
    '[' :: (lineBreak (depth + 1) ++ (chars (depth + 1) first ++
      (itemChars (depth + 1) rest ++ (lineBreak depth ++ [']']))))
  | obj [] => ['\x7b', '\x7d']
  | obj ((key, value) :: rest) =>
    '\x7b' :: (lineBreak (depth + 1) ++ (stringChars key ++ (':' :: ' ' ::
      (chars (depth + 1) value ++ (fieldChars (depth + 1) rest ++ (lineBreak depth ++ ['\x7d']))))))

/-- The items after the first. -/
def itemChars (depth : Nat) : List Json → List Char
  | [] => []
  | item :: rest => ',' :: (lineBreak depth ++ (chars depth item ++ itemChars depth rest))

/-- The fields after the first. -/
def fieldChars (depth : Nat) : List (String × Json) → List Char
  | [] => []
  | (key, value) :: rest =>
    ',' :: (lineBreak depth ++ (stringChars key ++ (':' :: ' ' ::
      (chars depth value ++ fieldChars depth rest))))

end

def render (value : Json) : String := String.ofList (chars 0 value)

def isSpace (c : Char) : Bool := c = ' ' || c = '\t' || c = '\n' || c = '\r'

def skipSpace (text : List Char) : List Char := text.dropWhile isSpace

def hexValue? (c : Char) : Option Nat :=
  if '0' ≤ c && c ≤ '9' then some (c.toNat - '0'.toNat)
  else if 'a' ≤ c && c ≤ 'f' then some (c.toNat - 'a'.toNat + 10)
  else if 'A' ≤ c && c ≤ 'F' then some (c.toNat - 'A'.toNat + 10)
  else none

def hexUnit? (a b c d : Char) : Option Nat := do
  return (((← hexValue? a) * 16 + (← hexValue? b)) * 16 + (← hexValue? c)) * 16 + (← hexValue? d)

def isHighSurrogate (unit : Nat) : Bool := 0xd800 ≤ unit && unit < 0xdc00

def isLowSurrogate (unit : Nat) : Bool := 0xdc00 ≤ unit && unit < 0xe000

def joinSurrogates (high low : Nat) : Nat := 0x10000 + (high - 0xd800) * 0x400 + (low - 0xdc00)

/-- What a backslash followed by one letter stands for. -/
def unescape? (letter : Char) : Option Char :=
  [('\x22', '\x22'), ('\\', '\\'), ('/', '/'), ('n', '\n'), ('r', '\r'), ('t', '\t'), ('b', '\x08'),
   ('f', '\x0c')].lookup letter

/-- Reads a string from behind its opening quotation mark. Control characters have to be escaped,
and a surrogate has to be one of a pair. -/
def readString : List Char → Option (List Char × List Char)
  | [] => none
  | c :: rest =>
    if c = '\x22' then some ([], rest)
    else if c = '\\' then
      match rest with
      | 'u' :: a :: b :: c :: d :: rest =>
        match hexUnit? a b c d with
        | none => none
        | some unit =>
          if isHighSurrogate unit then
            match rest with
            | '\\' :: 'u' :: e :: f :: g :: h :: rest =>
              match hexUnit? e f g h with
              | none => none
              | some low =>
                if isLowSurrogate low then
                  (readString rest).map fun (text, after) =>
                    (Char.ofNat (joinSurrogates unit low) :: text, after)
                else none
            | _ => none
          else if isLowSurrogate unit then none
          else (readString rest).map fun (text, after) => (Char.ofNat unit :: text, after)
      | letter :: rest =>
        match unescape? letter with
        | none => none
        | some c => (readString rest).map fun (text, after) => (c :: text, after)
      | [] => none
    else if c.toNat < 0x20 then none
    else (readString rest).map fun (text, after) => (c :: text, after)

def digitsValue (digits : List Char) : Nat :=
  digits.foldl (fun n c => 10 * n + (c.toNat - '0'.toNat)) 0

/-- The digits of an integer: a zero by itself, or a run that does not start with one. -/
def integerDigits : List Char → List Char
  | '0' :: _ => ['0']
  | text => text.takeWhile Char.isDigit

/-- A point and the digits after it; nothing if no digit follows. -/
def fractionChars : List Char → List Char
  | '.' :: rest =>
    let digits := rest.takeWhile Char.isDigit
    if digits.isEmpty then [] else '.' :: digits
  | _ => []

/-- An exponent with its sign; nothing if no digit follows. -/
def exponentChars : List Char → List Char
  | e :: rest =>
    if e = 'e' || e = 'E' then
      let sign := match rest with
        | s :: _ => if s = '+' || s = '-' then [s] else []
        | [] => []
      let digits := (rest.drop sign.length).takeWhile Char.isDigit
      if digits.isEmpty then [] else e :: (sign ++ digits)
    else []
  | [] => []

/-- Reads a number, or a word that stands for one. -/
def readNumber (text : List Char) : Option (Json × List Char) :=
  let sign := if text.head? = some '-' then ['-'] else []
  let body := text.drop sign.length
  let digits := integerDigits body
  if digits.isEmpty then
    let word := "Infinity".toList
    if word.isPrefixOf body then
      some (decimal (String.ofList (sign ++ word)), body.drop word.length)
    else none
  else
    let rest := body.drop digits.length
    let fraction := fractionChars rest
    let exponent := exponentChars (rest.drop fraction.length)
    let after := rest.drop (fraction.length + exponent.length)
    if fraction.isEmpty && exponent.isEmpty then
      let value : Int := digitsValue digits
      some (int (if sign.isEmpty then value else -value), after)
    else some (decimal (String.ofList (sign ++ digits ++ fraction ++ exponent)), after)

/-- The words with a meaning of their own. -/
def words : List (String × Json) :=
  [("null", null), ("true", bool true), ("false", bool false), ("NaN", decimal "NaN")]

def readWord (text : List Char) : Option (Json × List Char) :=
  (words.find? fun entry => entry.1.toList.isPrefixOf text).map fun entry =>
    (entry.2, text.drop entry.1.length)

mutual

def readValue : Nat → List Char → Option (Json × List Char)
  | 0, _ => none
  | steps + 1, text =>
    match text with
    | [] => none
    | c :: rest =>
      if c = '\x22' then
        (readString rest).map fun (value, after) => (str (String.ofList value), after)
      else if c = '[' then
        match skipSpace rest with
        | ']' :: after => some (arr [], after)
        | inner => (readItems steps inner).map fun (items, after) => (arr items, after)
      else if c = '\x7b' then
        match skipSpace rest with
        | '\x7d' :: after => some (obj [], after)
        | inner => (readFields steps inner).map fun (fields, after) => (obj fields, after)
      else
        match readWord text with
        | some found => some found
        | none => readNumber text

/-- Reads the items of an array that has some, with the closing bracket. -/
def readItems : Nat → List Char → Option (List Json × List Char)
  | 0, _ => none
  | steps + 1, text =>
    match readValue steps text with
    | none => none
    | some (item, rest) =>
      match skipSpace rest with
      | ',' :: rest =>
        (readItems steps (skipSpace rest)).map fun (items, after) => (item :: items, after)
      | ']' :: after => some ([item], after)
      | _ => none

/-- Reads the fields of an object that has some, with the closing brace. -/
def readFields : Nat → List Char → Option (List (String × Json) × List Char)
  | 0, _ => none
  | steps + 1, text =>
    match text with
    | '\x22' :: rest =>
      match readString rest with
      | none => none
      | some (key, rest) =>
        match skipSpace rest with
        | ':' :: rest =>
          match readValue steps (skipSpace rest) with
          | none => none
          | some (value, rest) =>
            match skipSpace rest with
            | ',' :: rest =>
              (readFields steps (skipSpace rest)).map fun (fields, after) =>
                ((String.ofList key, value) :: fields, after)
            | '\x7d' :: after => some ([(String.ofList key, value)], after)
            | _ => none
        | _ => none
    | _ => none

end

/-- Reads a text that holds one value and nothing else but space. -/
def parse? (text : String) : Option Json :=
  match readValue (2 * text.length + 1) (skipSpace text.toList) with
  | some (value, rest) => if (skipSpace rest).isEmpty then some value else none
  | none => none

end Json

end Resolution
