import Resolution.Proofs.Balance

/-!
# Where a text is divided

A division of a text is a sequence of pieces with one character, a mark, between each two of them,
so that it holds all of the text. The walk that cuts a text finds the division whose marks are just
the separators outside parentheses: a comma between clauses, a disjunction sign or a letter `V` that
stands alone between literals.
-/

namespace Resolution

open Text

namespace ClauseText

/-- Pieces of a text, with a mark behind each but the last. -/
inductive Division where
  | last (piece : List Char)
  | cut (piece : List Char) (mark : Char) (rest : Division)
  deriving DecidableEq, Repr

/-- Whether a character separates, given what precedes it in its own piece and what follows it in
the text. -/
abbrev Separation := List Char → Char → List Char → Prop

/-- Behind the text no parenthesis is open. -/
def Outside (text : List Char) : Prop := text.count '(' = text.count ')'

/-- No character of a piece is a separator outside parentheses. The piece stands behind `before`, of
which `own` belongs to the piece already, and in front of `after`. -/
def Keeps (separates : Separation) (before own piece after : List Char) : Prop :=
  ∀ a c b, piece = a ++ c :: b → Outside (before ++ a) → ¬separates (own ++ a) c (b ++ after)

namespace Division

def text : Division → List Char
  | last piece => piece
  | cut piece mark rest => piece ++ mark :: rest.text

def pieces : Division → List (List Char)
  | last piece => [piece]
  | cut piece _ rest => piece :: rest.pieces

/-- The marks, and no other characters, are separators outside parentheses. The division stands
behind `before`, of which `own` belongs to its first piece already. -/
def Obeys (separates : Separation) (before own : List Char) : Division → Prop
  | last piece => Keeps separates before own piece []
  | cut piece mark rest =>
    Keeps separates before own piece (mark :: rest.text) ∧
      Outside (before ++ piece) ∧ separates (own ++ piece) mark rest.text ∧
      rest.Obeys separates (before ++ piece ++ [mark]) []

/-- The division with some text put in front of its first piece. -/
def behind (own : List Char) : Division → Division
  | last piece => last (own ++ piece)
  | cut piece mark rest => cut (own ++ piece) mark rest

@[simp]
theorem text_behind (own : List Char) (d : Division) : (d.behind own).text = own ++ d.text := by
  cases d with
  | last piece => rfl
  | cut piece mark rest => exact List.append_assoc _ _ _

theorem behind_behind (own : List Char) (c : Char) (d : Division) :
    (d.behind [c]).behind own = d.behind (own ++ [c]) := by
  cases d <;> simp [behind]

@[simp]
theorem behind_nil (d : Division) : d.behind [] = d := by
  cases d <;> rfl

end Division

section

variable {separates : Separation} {before own piece after : List Char} {c : Char}

theorem keeps_nil : Keeps separates before own [] after := by
  intro a c b h
  simp at h

theorem Keeps.cons (hc : Outside before → ¬separates own c (piece ++ after))
    (h : Keeps separates (before ++ [c]) (own ++ [c]) piece after) :
    Keeps separates before own (c :: piece) after := by
  intro a d b heq houtside
  cases a with
  | nil =>
      obtain ⟨rfl, rfl⟩ := List.cons.inj heq
      rw [List.append_nil] at houtside ⊢
      exact hc houtside
  | cons e a =>
      obtain ⟨rfl, rfl⟩ := List.cons.inj heq
      rw [List.append_cons] at houtside ⊢
      exact h a d b rfl houtside

/-- A character that is kept goes into the first piece. -/
theorem Division.Obeys.behind_singleton {d : Division}
    (hc : Outside before → ¬separates own c d.text)
    (h : d.Obeys separates (before ++ [c]) (own ++ [c])) :
    (d.behind [c]).Obeys separates before own := by
  cases d with
  | last piece => exact Keeps.cons (by rwa [List.append_nil]) h
  | cut piece mark rest =>
      obtain ⟨hkeeps, houtside, hmark, hrest⟩ := h
      rw [← List.append_cons] at houtside hmark hrest
      exact ⟨hkeeps.cons hc, houtside, hmark, hrest⟩

end

/-- A rule of the walk, which reads its piece backwards, decides a separation. No parenthesis
separates. -/
structure Decides (cuts : CutRule) (separates : Separation) : Prop where
  cuts_iff : ∀ own c after, cuts own.reverse c after = true ↔ separates own c after
  plain : ∀ own c after, separates own c after → isParenthesis c = false

/-- The text has a division as the separation wants it, with the given pieces once `own` is put in
front of the first. -/
def Divides (separates : Separation) (before own text : List Char) (ps : List (List Char)) :
    Prop :=
  ∃ d : Division, d.text = text ∧ (d.behind own).pieces = ps ∧ d.Obeys separates before own

section

variable {cuts : CutRule} {separates : Separation} {before own text : List Char} {c : Char}
  {ps : List (List Char)}

theorem divides_nil : Divides separates before own [] [own] :=
  ⟨.last [], rfl, congrArg (fun p => [p]) (List.append_nil own), keeps_nil⟩

theorem Divides.keep (hc : Outside before → ¬separates own c text)
    (h : Divides separates (before ++ [c]) (own ++ [c]) text ps) :
    Divides separates before own (c :: text) ps := by
  obtain ⟨d, rfl, hpieces, hobeys⟩ := h
  exact ⟨d.behind [c], d.text_behind [c], by rwa [Division.behind_behind],
    hobeys.behind_singleton hc⟩

theorem Divides.cut (houtside : Outside before) (hc : separates own c text)
    (h : Divides separates (before ++ [c]) [] text ps) :
    Divides separates before own (c :: text) (own :: ps) := by
  obtain ⟨d, rfl, hpieces, hobeys⟩ := h
  rw [Division.behind_nil] at hpieces
  refine ⟨.cut [] c d, rfl, ?_, keeps_nil, ?_, ?_, ?_⟩
  · simp [Division.behind, Division.pieces, hpieces]
  · rwa [List.append_nil]
  · rwa [List.append_nil]
  · rwa [List.append_nil]

/-- Every step of the walk adds to the first piece, or puts a piece in front of the others. -/
theorem Passage.divides (hdecides : Decides cuts separates) {depth : Nat} {piece : List Char}
    {answer : Except Imbalance (List (List Char))} (hpassage : Passage cuts depth piece text answer)
    (hbefore : Nested depth before) (h : answer = .ok ps) :
    Divides separates before piece.reverse text ps := by
  have hparenthesis : ∀ {c own text}, isParenthesis c = true → ¬separates own c text := by
    intro c own text hc hsep
    rw [hdecides.plain own c text hsep] at hc
    cases hc
  induction hpassage generalizing before ps with
  | ends =>
      rw [← Except.ok.inj h]
      exact divides_nil
  | unclosed => cases h
  | unopened => cases h
  | opening _ ih =>
      have hrest := ih hbefore.opening h
      rw [List.reverse_cons] at hrest
      exact hrest.keep fun _ => hparenthesis rfl
  | closing _ ih =>
      have hrest := ih hbefore.closing h
      rw [List.reverse_cons] at hrest
      exact hrest.keep fun _ => hparenthesis rfl
  | cut hc hcut _ ih =>
      obtain ⟨qs, hqs, rfl⟩ := Fallible.map_eq_ok.1 h
      refine (ih (hbefore.other hc) hqs).cut hbefore.open_count ((hdecides.cuts_iff _ _ _).1 ?_)
      rwa [List.reverse_reverse]
  | @kept depth piece rest c _ hc hkeep _ ih =>
      have hrest := ih (hbefore.other hc) h
      rw [List.reverse_cons] at hrest
      refine hrest.keep fun houtside hsep => ?_
      have hcount := hbefore.open_count
      rw [houtside, Nat.left_eq_add] at hcount
      have hcut := (hdecides.cuts_iff piece.reverse c rest).2 hsep
      rw [List.reverse_reverse, hkeep hcount] at hcut
      cases hcut

end

def SeparatesClauses : Separation := fun _ c _ => c = ','

/-- A sign separates wherever it stands. A letter does if its piece is not blank up to there, if it
follows a blank or a closing parenthesis, and if it precedes a blank, a negation mark or the end of
the text. -/
def SeparatesLiterals : Separation := fun own c after =>
  c = '∨' ∨
    c = 'V' ∧ allBlank own = false ∧
      (∃ previous, own.getLast? = some previous ∧ (isBlank previous = true ∨ previous = ')')) ∧
      ∀ next, after.head? = some next → isBlank next = true ∨ isNegationMark next = true

theorem decides_cutsClauses : Decides cutsClauses SeparatesClauses where
  cuts_iff _ _ _ := decide_eq_true_iff
  plain _ c _ h := by
    rw [show c = ',' from h]
    decide

theorem decides_cutsLiterals : Decides cutsLiterals SeparatesLiterals where
  cuts_iff own c after := by
    rcases List.eq_nil_or_concat' own with rfl | ⟨init, previous, rfl⟩
    · simp [cutsLiterals, SeparatesLiterals, allBlank]
    · have hreverse : (init ++ [previous]).reverse = previous :: init.reverse := by simp
      have hblank : allBlank (previous :: init.reverse) = allBlank (init ++ [previous]) := by
        rw [← hreverse, allBlank, List.all_reverse, allBlank]
      rw [hreverse]
      unfold cutsLiterals SeparatesLiterals
      rw [hblank]
      cases after <;> simp [and_assoc]
  plain _ c _ h := by
    rcases h with rfl | ⟨rfl, -⟩ <;> decide

/-- The parts are the trimmed pieces of a division of the text. All pieces are balanced, and the
marks are just the separators outside parentheses. -/
def Partition (separates : Separation) (text : List Char) (parts : List (List Char)) : Prop :=
  ∃ d : Division, d.text = text ∧ parts = d.pieces.map trim ∧ (∀ p ∈ d.pieces, Balanced p) ∧
    d.Obeys separates [] []

theorem exists_partition {cuts : CutRule} {separates : Separation}
    (hdecides : Decides cuts separates) {text : List Char} (h : Balanced text) :
    ∃ parts, trimmedPieces cuts text = .ok parts ∧ Partition separates text parts := by
  obtain ⟨ps, hps⟩ := (pieces_answers cuts text).2.2.2 h
  obtain ⟨d, htext, hpieces, hobeys⟩ :=
    (passage_piecesFrom cuts 0 [] text).divides hdecides nested_nil hps
  rw [List.reverse_nil, Division.behind_nil] at hpieces
  subst hpieces
  refine ⟨d.pieces.map trim, by rw [trimmedPieces, hps], d, htext, rfl, ?_, hobeys⟩
  intro p hp
  exact balanced_of_mem_pieces hps hp

end ClauseText

open ClauseText

/-- Cutting a text into clauses, and cutting it into literals, fails exactly if its parentheses are
not balanced. Otherwise the text is made of balanced pieces, which trimmed are the parts in order,
with a single character between each two of them. Between clauses this is a comma outside
parentheses, and no other comma is outside parentheses. Between literals it is a disjunction sign or
a letter that stands alone, outside parentheses, and no piece holds another of these. -/
theorem splitters_partition (text : String) :
    ((∃ e, splitClauses text = .error e) ↔ ¬Balanced text.toList) ∧
      ((∃ e, splitLiterals text = .error e) ↔ ¬Balanced text.toList) ∧
      (Balanced text.toList →
        (∃ parts, splitClauses text = .ok (parts.map String.ofList) ∧
          Partition SeparatesClauses text.toList parts) ∧
        ∃ parts, splitLiterals text = .ok (parts.map String.ofList) ∧
          Partition SeparatesLiterals text.toList parts) := by
  have hfails : ∀ cuts, (∃ e, (trimmedPieces cuts text.toList).map
      (·.map String.ofList) = .error e) ↔ ¬Balanced text.toList := by
    intro cuts
    rw [← exists_trimmedPieces_iff cuts]
    cases trimmedPieces cuts text.toList <;> simp [Except.map]
  refine ⟨hfails cutsClauses, hfails cutsLiterals, fun hbalanced => ⟨?_, ?_⟩⟩
  · obtain ⟨parts, hparts, hpartition⟩ := exists_partition decides_cutsClauses hbalanced
    exact ⟨parts, by rw [splitClauses, hparts]; rfl, hpartition⟩
  · obtain ⟨parts, hparts, hpartition⟩ := exists_partition decides_cutsLiterals hbalanced
    exact ⟨parts, by rw [splitLiterals, hparts]; rfl, hpartition⟩

/-- A letter inside the parentheses is kept. The one at the end of the text cuts off an empty
literal. -/
theorem splitters_partition_letter_at_end :
    let text := "P(V, a) V ¬Q, V"
    Balanced text.toList ∧ splitClauses text = .ok ["P(V, a) V ¬Q", "V"] ∧
      splitLiterals text = .ok ["P(V, a)", "¬Q,", ""] ∧
      (∃ parts, splitClauses text = .ok (parts.map String.ofList) ∧
        Partition SeparatesClauses text.toList parts) ∧
      ∃ parts, splitLiterals text = .ok (parts.map String.ofList) ∧
        Partition SeparatesLiterals text.toList parts := by
  intro text
  have hclauses : splitClauses text = .ok ["P(V, a) V ¬Q", "V"] := by decide +kernel
  have hliterals : splitLiterals text = .ok ["P(V, a)", "¬Q,", ""] := by decide +kernel
  have hbalanced : Balanced text.toList := by
    by_contra h
    obtain ⟨e, he⟩ := (splitters_partition text).1.2 h
    cases he.symm.trans hclauses
  exact ⟨hbalanced, hclauses, hliterals, (splitters_partition text).2.2 hbalanced⟩

end Resolution
