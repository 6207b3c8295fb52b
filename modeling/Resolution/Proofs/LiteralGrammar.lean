import Mathlib.Data.Set.List
import Resolution.Proofs.Readback

/-!
# The grammar of a literal

A literal is written as

    blanks (mark blanks)* name blanks ["(" body ")"] blanks

where the body is blank or a list of pieces separated by commas, none of them blank. A `LiteralForm`
holds these parts; what each part may hold is carried by its type. The reader accepts exactly the
texts of literal forms and yields the literal that the form stands for. Each part ends where a
character stands that it cannot hold, so a text has one form; only where there is no body do two
runs of blanks meet, and it is open where the first of them ends.
-/

namespace Resolution

open Text ClauseText

namespace ClauseText

/-- A run of blanks, possibly empty. -/
abbrev Blanks := { text : List Char // allBlank text = true }

/-- A negation mark and the blanks behind it. -/
@[ext]
structure Sign where
  mark : Char
  blanks : Blanks
  isMark : isNegationMark mark = true

/-- One word without parentheses and commas that does not begin with a negation mark. -/
@[ext]
structure Word where
  chars : List Char
  nonempty : chars ≠ []
  plain : ∀ c ∈ chars, isNameChar c = true
  unmarked : chars.head?.any isNegationMark = false

/-- What stands between two commas, blanks around it included. -/
@[ext]
structure Piece where
  chars : List Char
  plain : ∀ c ∈ chars, isParenthesis c = false ∧ c ≠ ','
  visible : allBlank chars = false

/-- What stands between the parentheses. -/
inductive Body where
  | blank (blanks : Blanks)
  | list (first : Piece) (rest : List Piece)

def Sign.text (sign : Sign) : List Char := sign.mark :: sign.blanks.1

namespace Body

def text : Body → List Char
  | blank blanks => blanks.1
  | list first rest => [','].intercalate ((first :: rest).map Piece.chars)

def args : Body → List Term
  | blank _ => []
  | list first rest =>
    (first :: rest).map fun piece => Term.ofName (String.ofList (trim piece.chars))

/-- The body in its parentheses, if there is one. -/
def enclosed : Option Body → List Char
  | none => []
  | some body => '(' :: (body.text ++ [')'])

end Body

structure LiteralForm where
  lead : Blanks
  signs : List Sign
  name : Word
  gap : Blanks
  body : Option Body
  tail : Blanks

namespace LiteralForm

def text (form : LiteralForm) : List Char :=
  form.lead.1 ++ (form.signs.flatMap Sign.text ++
    (form.name.chars ++ (form.gap.1 ++ (Body.enclosed form.body ++ form.tail.1))))

/-- The literal that a form stands for: negated if the number of marks is odd. -/
def literal (form : LiteralForm) : Literal where
  name := String.ofList form.name.chars
  args := (form.body.map Body.args).getD []
  negated := form.signs.length % 2 = 1

end LiteralForm

theorem isBlank_of_isNegationMark {c : Char} (h : isNegationMark c = true) : isBlank c = false := by
  simp only [isNegationMark, Bool.or_eq_true, decide_eq_true_eq] at h
  rcases h with rfl | rfl <;> decide

theorem isBlank_of_isNameChar {c : Char} (h : isNameChar c = true) : isBlank c = false := by
  simp only [isNameChar, Bool.and_eq_true, Bool.not_eq_true'] at h
  exact h.2

theorem Word.exists_cons (name : Word) : ∃ c rest, name.chars = c :: rest ∧
    isNegationMark c = false ∧ isBlank c = false := by
  obtain ⟨c, rest, hchars⟩ := List.exists_cons_of_ne_nil name.nonempty
  have hmark := name.unmarked
  rw [hchars] at hmark
  exact ⟨c, rest, hchars, hmark, isBlank_of_isNameChar (name.plain c (by simp [hchars]))⟩

/-- Behind the blanks at its beginning a literal begins with a mark or with the name. -/
theorem head?_signs_name (signs : List Sign) (name : Word) (rest : List Char) :
    (signs.flatMap Sign.text ++ (name.chars ++ rest)).head?.any isBlank = false := by
  cases signs with
  | nil =>
      obtain ⟨c, chars, hchars, -, hblank⟩ := name.exists_cons
      rw [hchars]
      exact hblank
  | cons sign signs => exact isBlank_of_isNegationMark sign.isMark

theorem head?_name_not_sign (name : Word) (rest : List Char) :
    (name.chars ++ rest).head?.any (fun c => isNegationMark c || isBlank c) = false := by
  obtain ⟨c, chars, hchars, hmark, hblank⟩ := name.exists_cons
  rw [hchars]
  simp [hmark, hblank]

theorem head?_blanks_append {p : Char → Bool} (hp : ∀ c, isBlank c = true → p c = false)
    (blanks : Blanks) (rest : List Char) (hrest : rest.head?.any p = false) :
    (blanks.1 ++ rest).head?.any p = false := by
  obtain ⟨blanks, hblank⟩ := blanks
  cases blanks with
  | nil => exact hrest
  | cons c blanks => exact hp c (List.all_eq_true.1 hblank c List.mem_cons_self)

/-- Behind the name stands a blank, a parenthesis or nothing. -/
theorem head?_behind_name (gap : Blanks) (body : Option Body) (tail : Blanks) :
    (gap.1 ++ (Body.enclosed body ++ tail.1)).head?.any isNameChar = false := by
  have hp : ∀ c, isBlank c = true → isNameChar c = false := by
    intro c hc
    simp [isNameChar, hc]
  refine head?_blanks_append hp gap _ ?_
  cases body with
  | none =>
      have htail := head?_blanks_append hp tail [] rfl
      rwa [List.append_nil] at htail
  | some body =>
      rw [Body.enclosed, List.cons_append, List.head?_cons]
      decide

theorem Piece.readArgument_eq (piece : Piece) :
    readArgument piece.chars = .ok (Term.ofName (String.ofList (trim piece.chars))) := by
  have hplain : piece.chars.any isParenthesis = false := by
    rw [List.any_eq_false]
    intro c hc
    simp [(piece.plain c hc).1]
  rw [readArgument, if_neg (by simp [piece.visible]), if_neg (by simp [hplain])]

theorem not_mem_comma (pieces : List Piece) : ∀ text ∈ pieces.map Piece.chars, ',' ∉ text := by
  intro text htext hcomma
  obtain ⟨piece, -, rfl⟩ := List.mem_map.1 htext
  exact (piece.plain ',' hcomma).2 rfl

theorem Body.splitOn_text (first : Piece) (rest : List Piece) :
    (Body.list first rest).text.splitOn ',' = (first :: rest).map Piece.chars :=
  List.splitOn_intercalate ',' (not_mem_comma _) (by simp)

theorem Body.allBlank_list (first : Piece) (rest : List Piece) :
    allBlank (Body.list first rest).text = false := by
  rw [Body.text, List.map_cons, intercalate_cons_eq_flatMap, allBlank_append, first.visible,
    Bool.false_and]

theorem Body.readArguments_text (body : Body) : readArguments body.text = .ok body.args := by
  cases body with
  | blank blanks => exact if_pos blanks.2
  | list first rest =>
      rw [readArguments, if_neg (by simp [allBlank_list]), splitOn_text, Fallible.mapM_eq_ok, args,
        List.forall₂_map_left_iff, List.forall₂_map_right_iff, List.forall₂_same]
      exact fun piece _ => piece.readArgument_eq

theorem readArgumentList_enclosed (gap : Blanks) (body : Option Body) :
    readArgumentList ((gap.1 ++ Body.enclosed body).dropWhile isBlank) =
      .ok ((body.map Body.args).getD []) := by
  have hgap : ∀ c ∈ gap.1, isBlank c = true := List.all_eq_true.1 gap.2
  rw [List.dropWhile_append_of_pos hgap]
  cases body with
  | none => rfl
  | some body =>
      have hopening :
          ('(' :: (body.text ++ [')'])).dropWhile isBlank = '(' :: (body.text ++ [')']) :=
        dropWhile_of_head? (by rw [List.head?_cons]; decide)
      rw [Body.enclosed, hopening, readArgumentList, List.getLast?_concat, List.dropLast_concat,
        body.readArguments_text]
      rfl

theorem mem_signs {signs : List Sign} {c : Char} (hc : c ∈ signs.flatMap Sign.text) :
    (isNegationMark c || isBlank c) = true := by
  obtain ⟨sign, -, hc⟩ := List.mem_flatMap.1 hc
  rcases List.mem_cons.1 hc with rfl | hc
  · rw [sign.isMark, Bool.true_or]
  · rw [List.all_eq_true.1 sign.blanks.2 c hc, Bool.or_true]

theorem countP_signs (signs : List Sign) :
    (signs.flatMap Sign.text).countP isNegationMark = signs.length := by
  induction signs with
  | nil => rfl
  | cons sign signs ih =>
      have hblanks : sign.blanks.1.countP isNegationMark = 0 := by
        rw [List.countP_eq_zero]
        intro c hc hmark
        have hblank := List.all_eq_true.1 sign.blanks.2 c hc
        rw [isBlank_of_isNegationMark hmark] at hblank
        cases hblank
      rw [List.flatMap_cons, List.countP_append, ih, Sign.text, List.countP_cons_of_pos sign.isMark,
        hblanks, List.length_cons]
      omega

theorem literalOf_parts (signs : List Sign) (name : Word) (gap : Blanks) (body : Option Body) :
    literalOf (signs.flatMap Sign.text ++ (name.chars ++ (gap.1 ++ Body.enclosed body))) =
      .ok { name := String.ofList name.chars, args := (body.map Body.args).getD [],
            negated := signs.length % 2 = 1 } := by
  have hend : (gap.1 ++ Body.enclosed body).head?.any isNameChar = false := by
    have hend := head?_behind_name gap body ⟨[], rfl⟩
    rwa [List.append_nil] at hend
  obtain ⟨htakeSigns, hdropSigns⟩ := takeWhile_append_of_head? (fun c hc => mem_signs hc)
    (head?_name_not_sign name (gap.1 ++ Body.enclosed body))
  obtain ⟨htakeName, hdropName⟩ := takeWhile_append_of_head? name.plain hend
  unfold literalOf
  dsimp only
  rw [htakeSigns, hdropSigns, htakeName, hdropName, readArgumentList_enclosed, countP_signs,
    if_neg (by simp [name.nonempty]), if_neg (by simp [name.nonempty])]
  rfl

theorem trimmed_parts (signs : List Sign) (name : Word) (gap : Blanks) (body : Option Body)
    (hgap : body = none → gap.1 = []) :
    Trimmed (signs.flatMap Sign.text ++ (name.chars ++ (gap.1 ++ Body.enclosed body))) := by
  refine ⟨head?_signs_name signs name _, ?_⟩
  rw [List.getLast?_append_of_ne_nil _ (by simp [name.nonempty])]
  cases body with
  | none =>
      rw [hgap rfl, Body.enclosed, List.append_nil, List.append_nil,
        List.getLast?_eq_some_getLast name.nonempty]
      exact isBlank_of_isNameChar (name.plain _ (List.getLast_mem name.nonempty))
  | some body =>
      rw [Body.enclosed, ← List.cons_append, ← List.append_assoc, ← List.append_assoc,
        List.getLast?_concat]
      decide

/-- Without a body the blanks behind the name are trimmed away with those at the end. -/
theorem LiteralForm.readLiteral_text (form : LiteralForm) :
    readLiteral form.text = .ok form.literal := by
  obtain ⟨lead, signs, name, gap, body, tail⟩ := form
  cases body with
  | none =>
      have hback : allBlank (gap.1 ++ tail.1) = true := by
        rw [allBlank_append, gap.2, tail.2]
        rfl
      have htrim := trim_of_trimmed (trimmed_parts signs name ⟨[], rfl⟩ none fun _ => rfl) lead.1
        (gap.1 ++ tail.1) lead.2 hback
      have htext : LiteralForm.text ⟨lead, signs, name, gap, none, tail⟩ =
          lead.1 ++ (signs.flatMap Sign.text ++ (name.chars ++ ([] ++ Body.enclosed none))) ++
            (gap.1 ++ tail.1) := by
        simp [text, Body.enclosed]
      rw [readLiteral, htext, htrim, literalOf_parts signs name ⟨[], rfl⟩ none]
      rfl
  | some body =>
      have htrim := trim_of_trimmed (trimmed_parts signs name gap (some body) fun h => by cases h)
        lead.1 tail.1 lead.2 tail.2
      have htext : LiteralForm.text ⟨lead, signs, name, gap, some body, tail⟩ =
          lead.1 ++ (signs.flatMap Sign.text ++
            (name.chars ++ (gap.1 ++ Body.enclosed (some body)))) ++ tail.1 := by
        simp [text]
      rw [readLiteral, htext, htrim, literalOf_parts]
      rfl

theorem exists_signs {chars : List Char}
    (h : ∀ c ∈ chars, isNegationMark c = true ∨ isBlank c = true) :
    ∃ (lead : Blanks) (signs : List Sign), chars = lead.1 ++ signs.flatMap Sign.text := by
  induction chars with
  | nil => exact ⟨⟨[], rfl⟩, [], rfl⟩
  | cons c chars ih =>
      obtain ⟨lead, signs, rfl⟩ := ih fun d hd => h d (List.mem_cons_of_mem c hd)
      rcases h c List.mem_cons_self with hmark | hblank
      · exact ⟨⟨[], rfl⟩, ⟨c, lead, hmark⟩ :: signs, rfl⟩
      · have hlead : allBlank (c :: lead.1) = true := by
          rw [← List.singleton_append, allBlank_append, lead.2]
          simp [allBlank, hblank]
        exact ⟨⟨c :: lead.1, hlead⟩, signs, rfl⟩

theorem exists_piece {chars : List Char} {t : Term} (hcomma : ',' ∉ chars)
    (h : readArgument chars = .ok t) : ∃ piece : Piece, piece.chars = chars := by
  unfold readArgument at h
  split at h
  · cases h
  next hblank =>
  split at h
  · cases h
  next hplain =>
  rw [Bool.not_eq_true] at hblank hplain
  refine ⟨⟨chars, fun c hc => ⟨?_, fun e => hcomma (e ▸ hc)⟩, hblank⟩, rfl⟩
  exact Bool.not_eq_true _ ▸ List.any_eq_false.1 hplain c hc

theorem exists_body {inner : List Char} {args : List Term} (h : readArguments inner = .ok args) :
    ∃ body : Body, body.text = inner := by
  unfold readArguments at h
  split at h
  · next hblank => exact ⟨.blank ⟨inner, hblank⟩, rfl⟩
  · have hrange : inner.splitOn ',' ∈ Set.range (List.map Piece.chars) := by
      rw [Set.range_list_map]
      intro chars hchars
      obtain ⟨t, ht⟩ := Fallible.exists_ok_of_mem_mapM h hchars
      exact exists_piece (not_mem_of_mem_splitOn hchars) ht
    obtain ⟨pieces, hpieces⟩ := hrange
    cases pieces with
    | nil => exact absurd hpieces.symm (List.splitOn_ne_nil ',' inner)
    | cons first rest =>
        refine ⟨.list first rest, ?_⟩
        rw [Body.text, hpieces, List.intercalate_splitOn]

theorem exists_enclosed {text : List Char} {args : List Term}
    (h : readArgumentList text = .ok args) : ∃ body, text = Body.enclosed body := by
  cases text with
  | nil => exact ⟨none, rfl⟩
  | cons c rest =>
      rw [readArgumentList] at h
      split at h
      · next hparentheses =>
          simp only [Bool.and_eq_true, decide_eq_true_eq] at hparentheses
          obtain ⟨rfl, hlast⟩ := hparentheses
          obtain ⟨inner, rfl⟩ := List.getLast?_eq_some_iff.1 hlast
          rw [List.dropLast_concat] at h
          obtain ⟨body, rfl⟩ := exists_body h
          exact ⟨some body, rfl⟩
      · cases h

theorem exists_form {text : List Char} {l : Literal} (h : readLiteral text = .ok l) :
    ∃ form : LiteralForm, form.text = text := by
  obtain ⟨front, back, hfront, hback, htext⟩ := exists_blanks_around_trim text
  unfold readLiteral at h
  split at h
  · next l' hl' =>
      obtain ⟨signs, name, rest, htrim, hsigns, hne, hmark, hword, hargs, -, -⟩ :=
        literalOf_eq_ok hl'
      obtain ⟨lead, signs, rfl⟩ := exists_signs hsigns
      obtain ⟨body, hbody⟩ := exists_enclosed hargs
      have hlead : allBlank (front ++ lead.1) = true := by
        rw [allBlank_append, hfront, lead.2]
        rfl
      refine ⟨⟨⟨front ++ lead.1, hlead⟩, signs, ⟨name, hne, hword, hmark⟩,
        ⟨rest.takeWhile isBlank, List.all_takeWhile⟩, body, ⟨back, hback⟩⟩, ?_⟩
      rw [htext, htrim, LiteralForm.text, ← hbody]
      simp only [List.append_assoc]
      rw [← List.append_assoc (rest.takeWhile isBlank), List.takeWhile_append_dropWhile]
  · cases h

/-- A run of characters of one class ends at the first character of another class. -/
theorem run_unique {p : Char → Bool} {a b a' b' : List Char} (ha : ∀ c ∈ a, p c = true)
    (ha' : ∀ c ∈ a', p c = true) (hb : b.head?.any p = false) (hb' : b'.head?.any p = false)
    (h : a ++ b = a' ++ b') : a = a' ∧ b = b' := by
  obtain ⟨htake, hdrop⟩ := takeWhile_append_of_head? ha hb
  obtain ⟨htake', hdrop'⟩ := takeWhile_append_of_head? ha' hb'
  rw [h] at htake hdrop
  exact ⟨htake.symm.trans htake', hdrop.symm.trans hdrop'⟩

theorem blanks_unique {a a' : Blanks} {b b' : List Char} (hb : b.head?.any isBlank = false)
    (hb' : b'.head?.any isBlank = false) (h : a.1 ++ b = a'.1 ++ b') : a = a' ∧ b = b' := by
  obtain ⟨hblanks, hrest⟩ :=
    run_unique (List.all_eq_true.1 a.2) (List.all_eq_true.1 a'.2) hb hb' h
  exact ⟨Subtype.ext hblanks, hrest⟩

/-- A name is not taken for a sign. -/
theorem Word.not_sign {name : Word} {sign : Sign} {rest rest' : List Char}
    (h : name.chars ++ rest = sign.text ++ rest') : False := by
  obtain ⟨c, chars, hchars, hmark, -⟩ := name.exists_cons
  rw [hchars, Sign.text, List.cons_append, List.cons_append, List.cons.injEq] at h
  rw [h.1, sign.isMark] at hmark
  cases hmark

theorem signs_unique {signs signs' : List Sign} {name name' : Word} {rest rest' : List Char}
    (h : signs.flatMap Sign.text ++ (name.chars ++ rest) =
      signs'.flatMap Sign.text ++ (name'.chars ++ rest')) :
    signs = signs' ∧ name.chars ++ rest = name'.chars ++ rest' := by
  induction signs generalizing signs' with
  | nil =>
      cases signs' with
      | nil => exact ⟨rfl, h⟩
      | cons sign' signs' =>
          rw [List.flatMap_cons, List.append_assoc] at h
          exact (Word.not_sign h).elim
  | cons sign signs ih =>
      cases signs' with
      | nil =>
          rw [List.flatMap_cons, List.append_assoc] at h
          exact (Word.not_sign h.symm).elim
      | cons sign' signs' =>
          simp only [List.flatMap_cons, Sign.text, List.append_assoc, List.cons_append,
            List.cons.injEq] at h
          obtain ⟨hblanks, hrest⟩ := blanks_unique (head?_signs_name signs name rest)
            (head?_signs_name signs' name' rest') h.2
          obtain ⟨rfl, hname⟩ := ih hrest
          exact ⟨by rw [Sign.ext h.1 hblanks], hname⟩

theorem Body.isParenthesis_eq_false (body : Body) {c : Char} (hc : c ∈ body.text) :
    isParenthesis c = false := by
  cases body with
  | blank blanks => exact isParenthesis_of_isBlank (List.all_eq_true.1 blanks.2 c hc)
  | list first rest =>
      rcases mem_sep_or_text hc with hc | ⟨text, htext, hc⟩
      · rw [List.mem_singleton.1 hc]
        decide
      · obtain ⟨piece, -, rfl⟩ := List.mem_map.1 htext
        exact (piece.plain c hc).1

theorem Body.text_injective : Function.Injective Body.text := by
  intro body body' h
  cases body with
  | blank blanks =>
      cases body' with
      | blank blanks' => exact congrArg Body.blank (Subtype.ext h)
      | list first rest =>
          have hblank := allBlank_list first rest
          rw [← h, text, blanks.2] at hblank
          cases hblank
  | list first rest =>
      cases body' with
      | blank blanks' =>
          have hblank := allBlank_list first rest
          rw [h, text, blanks'.2] at hblank
          cases hblank
      | list first' rest' =>
          have hpieces := splitOn_text first rest
          rw [h, splitOn_text] at hpieces
          have hinjective : Function.Injective Piece.chars := fun _ _ => Piece.ext
          rw [List.map_injective_iff.2 hinjective |>.eq_iff, List.cons.injEq] at hpieces
          rw [hpieces.1, hpieces.2]

/-- Blanks are not taken for a body. -/
theorem Body.not_blank {gap gap' tail tail' : Blanks} {body : Body}
    (h : gap.1 ++ tail.1 = gap'.1 ++ (Body.enclosed (some body) ++ tail'.1)) : False := by
  have hmem : '(' ∈ gap.1 ++ tail.1 := by
    rw [h, enclosed]
    simp
  have hblank : isBlank '(' = true := by
    rcases List.mem_append.1 hmem with hmem | hmem
    · exact List.all_eq_true.1 gap.2 _ hmem
    · exact List.all_eq_true.1 tail.2 _ hmem
  exact absurd hblank (by decide)

theorem Body.enclosed_unique {gap gap' tail tail' : Blanks} {body body' : Body}
    (h : gap.1 ++ (Body.enclosed (some body) ++ tail.1) =
      gap'.1 ++ (Body.enclosed (some body') ++ tail'.1)) :
    gap = gap' ∧ body = body' ∧ tail = tail' := by
  have hopening : ∀ (body : Body) (tail : List Char),
      (Body.enclosed (some body) ++ tail).head?.any isBlank = false := by
    intro body tail
    rw [enclosed, List.cons_append, List.head?_cons]
    decide
  obtain ⟨hgap, hrest⟩ := blanks_unique (hopening body tail.1) (hopening body' tail'.1) h
  simp only [enclosed, List.cons_append, List.append_assoc, List.nil_append, List.cons.injEq,
    true_and] at hrest
  have hplain : ∀ (body : Body), ∀ c ∈ body.text, (!isParenthesis c) = true := by
    intro body c hc
    rw [body.isParenthesis_eq_false hc]
    rfl
  have hclosing : ∀ tail : List Char, (')' :: tail).head?.any (fun c => !isParenthesis c) = false :=
    fun _ => by rw [List.head?_cons]; decide
  obtain ⟨hbody, htail⟩ :=
    run_unique (hplain body) (hplain body') (hclosing tail.1) (hclosing tail'.1) hrest
  exact ⟨hgap, text_injective hbody, Subtype.ext (List.cons.inj htail).2⟩

/-- The forms agree in all parts. Where there is no body, only the place at which the blanks behind
the name are divided is left open. -/
structure LiteralForm.SameParts (form form' : LiteralForm) : Prop where
  lead : form.lead = form'.lead
  signs : form.signs = form'.signs
  name : form.name = form'.name
  body : form.body = form'.body
  blanks : form.gap.1 ++ form.tail.1 = form'.gap.1 ++ form'.tail.1
  whole : form.body ≠ none → form = form'

theorem LiteralForm.sameParts_of_text_eq {form form' : LiteralForm} (h : form.text = form'.text) :
    form.SameParts form' := by
  obtain ⟨lead, signs, name, gap, body, tail⟩ := form
  obtain ⟨lead', signs', name', gap', body', tail'⟩ := form'
  simp only [text] at h
  obtain ⟨rfl, hsigns⟩ := blanks_unique (head?_signs_name _ _ _) (head?_signs_name _ _ _) h
  obtain ⟨rfl, hname⟩ := signs_unique hsigns
  obtain ⟨hchars, hback⟩ := run_unique name.plain name'.plain (head?_behind_name gap body tail)
    (head?_behind_name gap' body' tail') hname
  obtain rfl := Word.ext hchars
  cases body with
  | none =>
      cases body' with
      | none => exact ⟨rfl, rfl, rfl, rfl, hback, fun hbody => absurd rfl hbody⟩
      | some body' => exact (Body.not_blank hback).elim
  | some body =>
      cases body' with
      | none => exact (Body.not_blank hback.symm).elim
      | some body' =>
          obtain ⟨rfl, rfl, rfl⟩ := Body.enclosed_unique hback
          exact ⟨rfl, rfl, rfl, rfl, rfl, fun _ => rfl⟩

end ClauseText

/-- A text is read as a literal exactly if it has a literal form, and then all its forms have the
same parts and the literal is the one that they stand for: it has the name of the form, is negated
if the number of marks is odd, and its arguments are the terms of the trimmed pieces, in order. -/
theorem literal_parse_grammar (text : String) :
    ((∃ l, Literal.parse text = .ok l) ↔ ∃ form : LiteralForm, form.text = text.toList) ∧
      ∀ form : LiteralForm, form.text = text.toList →
        Literal.parse text = .ok form.literal ∧
          ∀ form' : LiteralForm, form'.text = text.toList → form.SameParts form' := by
  have hread : ∀ form : LiteralForm, form.text = text.toList →
      Literal.parse text = .ok form.literal := by
    intro form hform
    rw [Literal.parse, ← hform, form.readLiteral_text]
  refine ⟨⟨?_, ?_⟩, fun form hform => ⟨hread form hform, fun form' hform' => ?_⟩⟩
  · rintro ⟨l, hl⟩
    exact exists_form hl
  · rintro ⟨form, hform⟩
    exact ⟨form.literal, hread form hform⟩
  · exact LiteralForm.sameParts_of_text_eq (hform.trans hform'.symm)

/-- Three marks, a mark inside the name, and a disjunction sign inside an argument. -/
theorem literal_parse_grammar_three_marks :
    let form : LiteralForm :=
      { lead := ⟨[' '], by decide⟩
        signs := [⟨'~', ⟨[' '], by decide⟩, by decide⟩, ⟨'¬', ⟨[], by decide⟩, by decide⟩,
          ⟨'~', ⟨[], by decide⟩, by decide⟩]
        name := ⟨['P', '¬', 'V'], by simp, List.all_eq_true.1 (by decide), by decide⟩
        gap := ⟨['\t'], by decide⟩
        body := some (.list ⟨[' ', 'a', ' '], by simp [isParenthesis], by decide⟩
          [⟨['V', ' ', '∨', ' ', 'x'], by simp [isParenthesis], by decide⟩])
        tail := ⟨['\n'], by decide⟩ }
    form.text = " ~ ¬~P¬V\t( a ,V ∨ x)\n".toList ∧
      Literal.parse " ~ ¬~P¬V\t( a ,V ∨ x)\n" =
        .ok { name := "P¬V", args := [.const "a", .const "V ∨ x"], negated := true } := by
  intro form
  have htext : form.text = " ~ ¬~P¬V\t( a ,V ∨ x)\n".toList := by decide +kernel
  have hliteral : form.literal =
      { name := "P¬V", args := [.const "a", .const "V ∨ x"], negated := true } := by decide +kernel
  refine ⟨htext, ?_⟩
  rw [((literal_parse_grammar _).2 form htext).1, hliteral]

end Resolution
