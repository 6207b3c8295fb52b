import Resolution.Report

/-!
# Derivation graphs

The derivation as a directed graph in the DOT language: a node for each clause and an edge from each
parent to the clause derived from it. Input clauses are gray, derived clauses blue, empty clauses
salmon.

The label of a node is a quoted string. In such a string a backslash in front of a quotation mark
takes the mark into the string, every other character stands for itself, and the first mark without
a backslash in front of it ends the string. Since a label is written with a backslash in front of
every mark that belongs to it, it can be read back, unless it ends with a backslash: that one takes
the closing mark into the string.
-/

namespace Resolution

namespace Graph

/-- The text with a backslash in front of every quotation mark. -/
def escaped (text : List Char) : List Char :=
  text.flatMap fun c => if c = '\x22' then ['\\', c] else [c]

def escapeLabel (text : String) : String := String.ofList (escaped text.toList)

def label (c : Clause) (place : Nat) : String := escapeLabel (Report.numberedName (place + 1) c)

def fillColor (s : ProofState) (c : Clause) (place : Nat) : String :=
  if c.isEmpty then "salmon"
  else if (place : Int) < s.numInput then "lightgray"
  else "lightblue"

def nodeLine (s : ProofState) (c : Clause) (place : Nat) : String :=
  let name := s!"c{place + 1}"
  s!"  {name} [label=\"{label c place}\", fillcolor={fillColor s c place}, style=filled];\n"

def edgeLine (parent child : Int) : String := s!"  c{parent} -> c{child};\n"

def edgeLines (s : ProofState) (step : Step) (place : Nat) : List String :=
  step.parents.map (edgeLine · (s.numInput + place + 1))

def header : List String :=
  ["digraph refute \x7b\n", "  rankdir=BT;\n", "  node [shape=box, style=rounded];\n"]

def lines (s : ProofState) : List String :=
  header ++ s.clauses.zipIdx.map (fun entry => nodeLine s entry.1 entry.2) ++
    s.derivation.zipIdx.flatMap (fun entry => edgeLines s entry.1 entry.2) ++ ["\x7d\n"]

/-- The file that a graph is exported to unless another is named. -/
def defaultPath : String := "refute_graph.dot"

/-- What is printed once a graph is exported. -/
def exportNotice (path : String) : String := s!"Graph exported to {path}\n"

/-- Reads a quoted string from behind its opening mark: what it stands for, and what follows its
closing mark. -/
def readQuoted : List Char → Option (List Char × List Char)
  | [] => none
  | '\x22' :: rest => some ([], rest)
  | '\\' :: '\x22' :: rest => (readQuoted rest).map fun r => ('\x22' :: r.1, r.2)
  | c :: rest => (readQuoted rest).map fun r => (c :: r.1, r.2)

section

variable {text rest : List Char} {c : Char}

theorem readQuoted_mark : readQuoted ('\x22' :: rest) = some ([], rest) := by
  rw [readQuoted]

theorem readQuoted_dyad :
    readQuoted ('\\' :: '\x22' :: rest) = (readQuoted rest).map fun r => ('\x22' :: r.1, r.2) := by
  rw [readQuoted]

theorem readQuoted_other (hc : c ≠ '\x22') (hrest : c = '\\' → rest.head? ≠ some '\x22') :
    readQuoted (c :: rest) = (readQuoted rest).map fun r => (c :: r.1, r.2) := by
  rw [readQuoted.eq_def]
  split
  · next heq => cases heq
  · next heq => exact absurd (List.cons.inj heq).1 hc
  · next heq =>
      obtain ⟨rfl, rfl⟩ := List.cons.inj heq
      exact absurd rfl (hrest rfl)
  · next heq =>
      cases heq
      rfl

theorem readQuoted_eq_none (h : '\x22' ∉ text) : readQuoted text = none := by
  induction text with
  | nil => rfl
  | cons c text ih =>
      rw [List.mem_cons, not_or] at h
      have hhead : text.head? ≠ some '\x22' := fun hhead => h.2 (List.mem_of_mem_head? hhead)
      rw [readQuoted_other (Ne.symm h.1) fun _ => hhead, ih h.2]
      rfl

theorem escaped_mark : escaped ('\x22' :: text) = '\\' :: '\x22' :: escaped text := rfl

theorem escaped_cons (hc : c ≠ '\x22') : escaped (c :: text) = c :: escaped text := by
  rw [escaped, List.flatMap_cons, if_neg hc]
  rfl

/-- No escaped text begins with a mark. -/
theorem head?_escaped_cons : (escaped (c :: text) ++ rest).head? ≠ some '\x22' := by
  by_cases hc : c = '\x22'
  · rw [hc, escaped_mark]
    simp
  · rw [escaped_cons hc]
    exact fun hhead => hc (Option.some.inj hhead)

/-- Behind an escaped text the reader goes on with what follows, unless the text ends with a
backslash and a mark follows. -/
theorem readQuoted_escaped (h : text.getLast? = some '\\' → rest.head? ≠ some '\x22') :
    readQuoted (escaped text ++ rest) = (readQuoted rest).map fun r => (text ++ r.1, r.2) := by
  induction text with
  | nil =>
      change readQuoted rest = _
      cases readQuoted rest <;> rfl
  | cons c text ih =>
      have htail : text.getLast? = some '\\' → rest.head? ≠ some '\x22' := by
        intro hlast
        refine h ?_
        rw [List.getLast?_cons, hlast]
        rfl
      by_cases hc : c = '\x22'
      · rw [hc, escaped_mark, List.cons_append, List.cons_append, readQuoted_dyad, ih htail,
          Option.map_map]
        rfl
      · have hnext : c = '\\' → (escaped text ++ rest).head? ≠ some '\x22' := by
          rintro rfl
          cases text with
          | nil => exact h rfl
          | cons d text => exact head?_escaped_cons
        rw [escaped_cons hc, List.cons_append, readQuoted_other hc hnext, ih htail, Option.map_map]
        rfl

/-- An escaped text between its marks, with something behind in which there is no other mark, is
read back unless it ends with a backslash. If it does, the string has no end. -/
theorem readQuoted_closed (hrest : '\x22' ∉ rest) :
    readQuoted (escaped text ++ '\x22' :: rest) =
      if text.getLast? = some '\\' then none else some (text, rest) := by
  split
  · next hlast =>
      obtain ⟨init, rfl⟩ := List.getLast?_eq_some_iff.1 hlast
      have hsplit : escaped (init ++ ['\\']) ++ '\x22' :: rest =
          escaped init ++ '\\' :: '\x22' :: rest := by
        simp [escaped]
      rw [hsplit, readQuoted_escaped (by simp), readQuoted_dyad, readQuoted_eq_none hrest]
      rfl
  · next hlast =>
      rw [readQuoted_escaped fun h => absurd h hlast, readQuoted_mark, Option.map_some,
        List.append_nil]

end

/-- What stands in front of a label. -/
def labelKey : List Char := ['l', 'a', 'b', 'e', 'l', '=', '\x22']

/-- Reads the quoted string behind the first `label=` of a line. -/
def readLabel : List Char → Option (List Char × List Char)
  | [] => none
  | c :: line =>
    if labelKey.isPrefixOf (c :: line) then readQuoted ((c :: line).drop labelKey.length)
    else readLabel line

theorem readLabel_behind {front : List Char} (h : 'l' ∉ front) (rest : List Char) :
    readLabel (front ++ (labelKey ++ rest)) = readQuoted rest := by
  induction front with
  | nil => rfl
  | cons c front ih =>
      rw [List.mem_cons, not_or] at h
      have hnot : labelKey.isPrefixOf (c :: (front ++ (labelKey ++ rest))) = false := by
        simp [labelKey, List.isPrefixOf, h.1]
      rw [List.cons_append, readLabel, hnot]
      exact ih h.2

/-- What is written behind the label. -/
def attributes (s : ProofState) (c : Clause) (place : Nat) : String :=
  s!", fillcolor={fillColor s c place}, style=filled];\n"

/-- A node line is the node's name, the label between marks and the other attributes. -/
theorem nodeLine_eq (s : ProofState) (c : Clause) (place : Nat) :
    nodeLine s c place =
      s!"  c{place + 1} [label=\"" ++ label c place ++ "\"" ++ attributes s c place := by
  refine String.toList_injective ?_
  change ("  " ++ ("c" ++ toString (place + 1)) ++ " [label=\"" ++ label c place ++
    "\", fillcolor=" ++ fillColor s c place ++ ", style=filled];\n").toList =
      ("  c" ++ toString (place + 1) ++ " [label=\"" ++ label c place ++ "\"" ++
        (", fillcolor=" ++ fillColor s c place ++ ", style=filled];\n")).toList
  simp [String.toList_append]

theorem toList_nodeLine (s : ProofState) (c : Clause) (place : Nat) :
    (nodeLine s c place).toList =
      ([' ', ' ', 'c'] ++ Nat.toDigits 10 (place + 1) ++ [' ', '[']) ++
        (labelKey ++ (escaped (toString (place + 1) ++ ". " ++ c.name).toList ++
          '\x22' :: (attributes s c place).toList)) := by
  have hname : (s!"  c{place + 1} [label=\"").toList =
      ([' ', ' ', 'c'] ++ Nat.toDigits 10 (place + 1) ++ [' ', '[']) ++ labelKey := by
    have hdigits : (toString (place + 1)).toList = Nat.toDigits 10 (place + 1) :=
      String.toList_ofList
    change ("  c" ++ toString (place + 1) ++ " [label=\"").toList = _
    rw [String.toList_append, String.toList_append, hdigits]
    simp [labelKey]
  have hlabel : (label c place).toList =
      escaped (toString (place + 1) ++ ". " ++ c.name).toList := String.toList_ofList
  rw [nodeLine_eq, String.toList_append, String.toList_append, String.toList_append, hname, hlabel]
  simp

theorem not_mem_attributes (s : ProofState) (c : Clause) (place : Nat) :
    '\x22' ∉ (attributes s c place).toList := by
  have hcolor : '\x22' ∉ (fillColor s c place).toList := by
    unfold fillColor
    split
    · decide
    · split <;> decide
  change '\x22' ∉ (", fillcolor=" ++ fillColor s c place ++ ", style=filled];\n").toList
  simp only [String.toList_append, List.mem_append, not_or]
  exact ⟨⟨by decide, hcolor⟩, by decide⟩

theorem not_mem_nodeName (place : Nat) :
    'l' ∉ [' ', ' ', 'c'] ++ Nat.toDigits 10 (place + 1) ++ [' ', '['] := by
  have hdigits : 'l' ∉ Nat.toDigits 10 (place + 1) :=
    fun h => absurd (Nat.isDigit_of_mem_toDigits (by decide) (by decide) h) (by decide)
  simp [hdigits]

/-- The number in front of a name does not change its end. -/
theorem getLast?_numbered (number : String) (c : Clause) :
    (number ++ ". " ++ c.name).toList.getLast? = some '\\' ↔
      c.name.toList.getLast? = some '\\' := by
  rw [String.toList_append, String.toList_append, List.getLast?_append, List.getLast?_append]
  cases c.name.toList.getLast? with
  | none => simp
  | some d => simp

theorem readLabel_nodeLine (s : ProofState) (c : Clause) (place : Nat) :
    readLabel (nodeLine s c place).toList =
      if c.name.toList.getLast? = some '\\' then none
      else some ((toString (place + 1) ++ ". " ++ c.name).toList,
        (attributes s c place).toList) := by
  rw [toList_nodeLine, readLabel_behind (not_mem_nodeName place),
    readQuoted_closed (not_mem_attributes s c place)]
  simp only [getLast?_numbered]

/-- The nodes stand behind the three lines of the header, in the order of the clauses. -/
theorem getElem?_lines {s : ProofState} {c : Clause} {place : Nat}
    (h : s.clauses[place]? = some c) :
    (lines s)[place + 3]? = some (nodeLine s c place) := by
  have hnode : (s.clauses.zipIdx.map fun entry => nodeLine s entry.1 entry.2)[place]? =
      some (nodeLine s c place) := by
    simp [h]
  have hlt := (List.getElem?_eq_some_iff.1 hnode).choose
  rw [lines, List.append_assoc, List.append_assoc, List.getElem?_append_right (by simp [header])]
  simpa [header, List.getElem?_append_left hlt] using hnode

end Graph

def ProofState.graph (s : ProofState) : String := String.join (Graph.lines s)

end Resolution
