import Resolution.Proofs.Cutting

/-!
# Balanced parentheses

A text is balanced when no part at its front closes a parenthesis that it has not opened, and all
that are opened are closed. The walk that cuts a text fails exactly if the text is not balanced, and
tells a parenthesis that was not opened from one that was not closed. The pieces that it cuts a
balanced text into are balanced.
-/

namespace Resolution.ClauseText

open Text

/-- Some part at the front of the text closes more parentheses than it opens. -/
def Overclosed (text : List Char) : Prop :=
  ∃ front, front <+: text ∧ front.count '(' < front.count ')'

/-- Nothing is closed that was not opened, and behind the text the given number of parentheses is
open. -/
structure Nested (depth : Nat) (text : List Char) : Prop where
  opened : ¬Overclosed text
  open_count : text.count '(' = text.count ')' + depth

/-- Nothing is closed that was not opened, and all that is opened is closed. -/
def Balanced (text : List Char) : Prop := Nested 0 text

theorem balanced_iff {text : List Char} :
    Balanced text ↔ ¬Overclosed text ∧ text.count '(' = text.count ')' :=
  ⟨fun h => ⟨h.opened, h.open_count⟩, fun h => ⟨h.1, h.2⟩⟩

section

variable {depth : Nat} {text : List Char} {c : Char}

theorem Overclosed.append (h : Overclosed text) (rest : List Char) : Overclosed (text ++ rest) := by
  obtain ⟨front, hfront, hcount⟩ := h
  exact ⟨front, hfront.trans (List.prefix_append text rest), hcount⟩

/-- Besides the parts at the front of the text, the longer text has only itself. -/
theorem overclosed_append_singleton :
    Overclosed (text ++ [c]) ↔
      Overclosed text ∨ (text ++ [c]).count '(' < (text ++ [c]).count ')' := by
  constructor
  · rintro ⟨front, hfront, hcount⟩
    rcases List.prefix_concat_iff.1 hfront with rfl | hfront
    · exact .inr hcount
    · exact .inl ⟨front, hfront, hcount⟩
  · rintro (h | hcount)
    · exact h.append [c]
    · exact ⟨_, List.prefix_refl _, hcount⟩

theorem nested_nil : Nested 0 [] := by
  refine ⟨?_, rfl⟩
  rintro ⟨front, hfront, hcount⟩
  rw [List.prefix_nil.1 hfront] at hcount
  exact Nat.lt_irrefl 0 hcount

theorem Nested.append_singleton {inner : Nat} (h : Nested depth text)
    (hcount : (text ++ [c]).count '(' = (text ++ [c]).count ')' + inner) :
    Nested inner (text ++ [c]) := by
  refine ⟨?_, hcount⟩
  rw [overclosed_append_singleton, not_or]
  exact ⟨h.opened, by omega⟩

theorem Nested.opening (h : Nested depth text) : Nested (depth + 1) (text ++ ['(']) := by
  refine h.append_singleton ?_
  have hcount := h.open_count
  simp [List.count_append]
  omega

theorem Nested.closing (h : Nested (depth + 1) text) : Nested depth (text ++ [')']) := by
  refine h.append_singleton ?_
  have hcount := h.open_count
  simp [List.count_append]
  omega

theorem count_eq_zero_of_forall {a : List Char} (ha : ∀ c ∈ a, isParenthesis c = false) :
    a.count '(' = 0 ∧ a.count ')' = 0 :=
  ⟨List.count_eq_zero.2 fun h => absurd (ha _ h) (by decide),
    List.count_eq_zero.2 fun h => absurd (ha _ h) (by decide)⟩

theorem Nested.other (h : Nested depth text) (hc : isParenthesis c = false) :
    Nested depth (text ++ [c]) := by
  obtain ⟨hopening, hclosing⟩ :=
    count_eq_zero_of_forall (a := [c]) fun d hd => List.mem_singleton.1 hd ▸ hc
  refine h.append_singleton ?_
  rw [List.count_append, List.count_append, hopening, hclosing]
  exact h.open_count

/-- Where no parenthesis is open, none can be closed. -/
theorem Nested.overclosed (h : Nested 0 text) (rest : List Char) :
    Overclosed (text ++ ')' :: rest) := by
  have hcount := h.open_count
  refine ⟨text ++ [')'], by simp, ?_⟩
  simp [List.count_append]
  omega

end

theorem balanced_of_forall {text : List Char} (h : ∀ c ∈ text, isParenthesis c = false) :
    Balanced text := by
  obtain ⟨hopening, hclosing⟩ := count_eq_zero_of_forall h
  refine balanced_iff.2 ⟨?_, by rw [hopening, hclosing]⟩
  rintro ⟨front, hfront, hcount⟩
  have hplain := count_eq_zero_of_forall fun c hc => h c (hfront.subset hc)
  rw [hplain.2] at hcount
  exact Nat.not_lt_zero _ hcount

/-- What an answer says about the parentheses of the whole text. -/
def Explains (text : List Char) : Except Imbalance (List (List Char)) → Prop
  | .error (.unopened _) => Overclosed text
  | .error (.unclosed _) => ¬Overclosed text ∧ text.count ')' < text.count '('
  | .ok _ => Balanced text

theorem explains_map {text : List Char} {answer : Except Imbalance (List (List Char))}
    {f : List (List Char) → List (List Char)} :
    Explains text (answer.map f) ↔ Explains text answer := by
  cases answer <;> rfl

/-- The depth of the walk is the number of parentheses that are open behind what it has read. -/
theorem Passage.explains {cuts : CutRule} {depth : Nat} {piece front text : List Char}
    {answer : Except Imbalance (List (List Char))} (h : Passage cuts depth piece text answer)
    (hfront : Nested depth front) : Explains (front ++ text) answer := by
  induction h generalizing front with
  | ends => rwa [List.append_nil]
  | unclosed =>
      have hcount := hfront.open_count
      rw [List.append_nil]
      exact ⟨hfront.opened, by omega⟩
  | @unopened piece rest => exact hfront.overclosed rest
  | opening _ ih =>
      rw [List.append_cons]
      exact ih hfront.opening
  | closing _ ih =>
      rw [List.append_cons]
      exact ih hfront.closing
  | cut hc _ _ ih =>
      rw [List.append_cons, explains_map]
      exact ih (hfront.other hc)
  | kept hc _ _ ih =>
      rw [List.append_cons]
      exact ih (hfront.other hc)

/-- Each answer is given exactly to the texts that it explains. -/
theorem pieces_answers (cuts : CutRule) (text : List Char) :
    ((∃ piece, pieces cuts text = .error (.unopened piece)) ↔ Overclosed text) ∧
      ((∃ piece, pieces cuts text = .error (.unclosed piece)) ↔
        ¬Overclosed text ∧ text.count ')' < text.count '(') ∧
      ((∃ ps, pieces cuts text = .ok ps) ↔ Balanced text) := by
  have hanswer : Explains text (pieces cuts text) :=
    (passage_piecesFrom cuts 0 [] text).explains nested_nil
  match hpieces : pieces cuts text with
  | .error (.unopened piece) =>
      rw [hpieces] at hanswer
      have hover : Overclosed text := hanswer
      simp [balanced_iff, hover]
  | .error (.unclosed piece) =>
      rw [hpieces] at hanswer
      obtain ⟨hopened, hcount⟩ := hanswer
      simp [balanced_iff, hopened, hcount, Nat.ne_of_gt hcount]
  | .ok ps =>
      rw [hpieces] at hanswer
      obtain ⟨hopened, hcount⟩ := balanced_iff.1 hanswer
      simp [balanced_iff, hopened, hcount]

theorem exists_trimmedPieces_iff (cuts : CutRule) {text : List Char} :
    (∃ parts, trimmedPieces cuts text = .ok parts) ↔ Balanced text := by
  rw [← (pieces_answers cuts text).2.2, trimmedPieces]
  cases pieces cuts text <;> simp

theorem balanced_of_mem_pieces {cuts : CutRule} {text p : List Char} {ps : List (List Char)}
    (h : pieces cuts text = .ok ps) (hp : p ∈ ps) : Balanced p := by
  have hreverse : Nested 0 p.reverse.reverse := by
    refine piecesFrom_preserves (P := fun depth piece => Nested depth piece.reverse) nested_nil
      ?_ ?_ ?_ nested_nil h p hp
    · intro depth piece hpiece
      rw [List.reverse_cons]
      exact hpiece.opening
    · intro depth piece hpiece
      rw [List.reverse_cons]
      exact hpiece.closing
    · intro depth piece c rest hc _ hpiece
      rw [List.reverse_cons]
      exact hpiece.other hc
  rwa [List.reverse_reverse] at hreverse

/-- Text without parentheses on both sides does not matter. -/
theorem Balanced.of_append {a text b : List Char} (ha : ∀ c ∈ a, isParenthesis c = false)
    (hb : ∀ c ∈ b, isParenthesis c = false) (h : Balanced (a ++ text ++ b)) : Balanced text := by
  obtain ⟨hopened, hcount⟩ := balanced_iff.1 h
  obtain ⟨haOpening, haClosing⟩ := count_eq_zero_of_forall ha
  obtain ⟨hbOpening, hbClosing⟩ := count_eq_zero_of_forall hb
  simp only [List.count_append, haOpening, haClosing, hbOpening, hbClosing, Nat.zero_add,
    Nat.add_zero] at hcount
  refine balanced_iff.2 ⟨?_, hcount⟩
  rintro ⟨front, hfront, hless⟩
  have hlonger : a ++ front <+: a ++ text ++ b :=
    ((List.prefix_append_right_inj a).2 hfront).trans (List.prefix_append _ b)
  refine hopened ⟨a ++ front, hlonger, ?_⟩
  rwa [List.count_append, List.count_append, haOpening, haClosing, Nat.zero_add, Nat.zero_add]

theorem isParenthesis_of_allBlank {text : List Char} (h : allBlank text = true) :
    ∀ c ∈ text, isParenthesis c = false :=
  fun c hc => isParenthesis_of_isBlank (List.all_eq_true.1 h c hc)

theorem Balanced.trim {text : List Char} (h : Balanced text) : Balanced (trim text) := by
  obtain ⟨front, back, hfront, hback, htext⟩ := exists_blanks_around_trim text
  rw [htext] at h
  exact h.of_append (isParenthesis_of_allBlank hfront) (isParenthesis_of_allBlank hback)

end Resolution.ClauseText
