/-!
# Blanks and numbers

A text is handled as the list of its characters. A Unicode property is kept as the ascending list of
the closed intervals of code points that it covers.

Blanks separate the parts of a clause set and are dropped around every part. A number, as users
write it, is an optional sign and decimal digits of any script; single underscores may stand between
digits, and leading zeros are allowed. Blanks around the number are dropped. The information
separators U+001C to U+001F count as blanks elsewhere, but not around a number. The digits follow
Unicode 14.
-/

namespace Resolution.Text

/-- Is the code point in one of the intervals? They ascend, so the first interval that starts beyond
the code point ends the search. -/
def covers : List (Nat × Nat) → Nat → Bool
  | [], _ => false
  | (low, high) :: rest, code => low ≤ code && (code ≤ high || covers rest code)

/-- The white space of Unicode together with the information separators U+001C to U+001F. -/
def blankRanges : List (Nat × Nat) :=
  [(0x9, 0xd), (0x1c, 0x20), (0x85, 0x85), (0xa0, 0xa0), (0x1680, 0x1680), (0x2000, 0x200a),
   (0x2028, 0x2029), (0x202f, 0x202f), (0x205f, 0x205f), (0x3000, 0x3000)]

def isBlank (c : Char) : Bool := covers blankRanges c.toNat

/-- Drops the characters of a class at both ends. -/
def trimBy (p : Char → Bool) (text : List Char) : List Char :=
  ((text.dropWhile p).reverse.dropWhile p).reverse

/-- Drops the blanks at both ends. -/
def trim (text : List Char) : List Char := trimBy isBlank text

def allBlank (text : List Char) : Bool := text.all isBlank

/-- The zeros of the decimal digit runs: each stands first in a run of ten. -/
def digitZeros : List Nat :=
  [0x30, 0x660, 0x6f0, 0x7c0, 0x966, 0x9e6, 0xa66, 0xae6, 0xb66, 0xbe6, 0xc66, 0xce6, 0xd66, 0xde6,
   0xe50, 0xed0, 0xf20, 0x1040, 0x1090, 0x17e0, 0x1810, 0x1946, 0x19d0, 0x1a80, 0x1a90, 0x1b50,
   0x1bb0, 0x1c40, 0x1c50, 0xa620, 0xa8d0, 0xa900, 0xa9d0, 0xa9f0, 0xaa50, 0xabf0, 0xff10, 0x104a0,
   0x10d30, 0x11066, 0x110f0, 0x11136, 0x111d0, 0x112f0, 0x11450, 0x114d0, 0x11650, 0x116c0,
   0x11730, 0x118e0, 0x11950, 0x11c50, 0x11d50, 0x11da0, 0x16a60, 0x16ac0, 0x16b50, 0x1d7ce,
   0x1d7d8, 0x1d7e2, 0x1d7ec, 0x1d7f6, 0x1e140, 0x1e2f0, 0x1e950, 0x1fbf0]

/-- The value of a decimal digit of any script. -/
def digitValue? (c : Char) : Option Nat :=
  (digitZeros.find? fun first => first ≤ c.toNat && c.toNat < first + 10).map (c.toNat - ·)

/-- Blanks that may surround a number. -/
def isNumberMargin (c : Char) : Bool := isBlank c && !(0x1c ≤ c.toNat && c.toNat ≤ 0x1f)

/-- Reads the digits after a first one; `value` is what was read so far. -/
def readDigits (value : Nat) : List Char → Option Nat
  | [] => some value
  | '_' :: c :: rest => do
    let d ← digitValue? c
    readDigits (10 * value + d) rest
  | c :: rest => do
    let d ← digitValue? c
    readDigits (10 * value + d) rest

def readNat? : List Char → Option Nat
  | [] => none
  | c :: rest => do
    let d ← digitValue? c
    readDigits d rest

def readInt? (text : List Char) : Option Int :=
  match trimBy isNumberMargin text with
  | '-' :: rest => (readNat? rest).map fun n => -(n : Int)
  | '+' :: rest => (readNat? rest).map fun n => (n : Int)
  | rest => (readNat? rest).map fun n => (n : Int)

end Resolution.Text
