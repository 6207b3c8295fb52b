import Resolution.Proofs.Cutting

/-!
# Reading undoes printing

The letter `V` joins literals and may also stand in names, and arguments may hold almost anything, a
disjunction sign or a line feed included. A printed clause set is read back nevertheless: the letter
cuts only where the piece so far holds some text and ends with a blank or a parenthesis, and within
a printed literal there is no such place outside the parentheses.
-/

namespace Resolution

open Text ClauseText

/-- The term can stand as an argument in a clause text: its name holds no parenthesis and no comma,
has no blanks around it, and tells whether the term is a variable. -/
structure Term.WellFormed (t : Term) : Prop where
  nonempty : t.name ≠ ""
  plain : ∀ c ∈ t.name.toList, c ≠ '(' ∧ c ≠ ')' ∧ c ≠ ','
  trimmed : Trimmed t.name.toList
  kind : t = .var t.name ↔ t.name ∈ Term.variableNames

/-- The literal can stand in a clause text: its name is one word without parentheses, commas and
disjunction signs, does not begin with a negation mark, and the arguments can stand in the text. -/
structure Literal.WellFormed (l : Literal) : Prop where
  nonempty : l.name ≠ ""
  plain : ∀ c ∈ l.name.toList, c ≠ '(' ∧ c ≠ ')' ∧ c ≠ ',' ∧ c ≠ '∨' ∧ isBlank c = false
  unmarked : l.name.toList.head?.any isNegationMark = false
  args : ∀ t ∈ l.args, t.WellFormed

instance (t : Term) : Decidable t.WellFormed :=
  decidable_of_iff
    (t.name ≠ "" ∧ t.name.toList.all (fun c => c ≠ '(' ∧ c ≠ ')' ∧ c ≠ ',') = true ∧
      Trimmed t.name.toList ∧ (t = .var t.name ↔ t.name ∈ Term.variableNames))
    ⟨fun ⟨hne, hplain, htrimmed, hkind⟩ => ⟨hne, by simpa using hplain, htrimmed, hkind⟩,
      fun h => ⟨h.nonempty, by simpa using h.plain, h.trimmed, h.kind⟩⟩

instance (l : Literal) : Decidable l.WellFormed :=
  decidable_of_iff
    (l.name ≠ "" ∧
      l.name.toList.all (fun c =>
        c ≠ '(' ∧ c ≠ ')' ∧ c ≠ ',' ∧ c ≠ '∨' ∧ isBlank c = false) = true ∧
      l.name.toList.head?.any isNegationMark = false ∧ l.args.all (fun t => t.WellFormed) = true)
    ⟨fun ⟨hne, hplain, hmark, hargs⟩ =>
        ⟨hne, by simpa using hplain, hmark, by simpa using hargs⟩,
      fun h => ⟨h.nonempty, by simpa using h.plain, h.unmarked, by simpa using h.args⟩⟩

theorem Term.WellFormed.ofName_name {t : Term} (h : t.WellFormed) : Term.ofName t.name = t := by
  unfold Term.ofName
  cases t with
  | var x => exact if_pos (h.kind.1 rfl)
  | const a => exact if_neg fun hmem => by cases h.kind.2 hmem

theorem Term.WellFormed.isParenthesis_eq_false {t : Term} (h : t.WellFormed) {c : Char}
    (hc : c ∈ t.name.toList) : isParenthesis c = false := by
  obtain ⟨hopening, hclosing, -⟩ := h.plain c hc
  exact ClauseText.isParenthesis_eq_false.2 ⟨hopening, hclosing⟩

theorem Term.WellFormed.readArgument_eq {t : Term} (h : t.WellFormed) (front : List Char)
    (hfront : allBlank front = true) : readArgument (front ++ t.name.toList) = .ok t := by
  have hne : t.name.toList ≠ [] := by simpa using h.nonempty
  have hblank : ¬allBlank (front ++ t.name.toList) = true := by
    rw [allBlank_append, allBlank_eq_false hne h.trimmed]
    simp
  have hplain : ¬(front ++ t.name.toList).any isParenthesis = true := by
    rw [Bool.not_eq_true, List.any_eq_false]
    intro c hc
    rw [Bool.not_eq_true]
    rcases List.mem_append.1 hc with hc | hc
    · exact isParenthesis_of_isBlank (List.all_eq_true.1 hfront c hc)
    · exact h.isParenthesis_eq_false hc
  have htrim : trim (front ++ t.name.toList) = t.name.toList := by
    have htrim := trim_of_trimmed h.trimmed front [] hfront rfl
    rwa [List.append_nil] at htrim
  rw [readArgument, if_neg hblank, if_neg hplain, htrim, String.ofList_toList, h.ofName_name]

theorem intercalate_cons_eq_flatMap (sep text : List Char) (texts : List (List Char)) :
    sep.intercalate (text :: texts) = text ++ texts.flatMap (sep ++ ·) := by
  induction texts generalizing text with
  | nil => rw [List.intercalate_singleton, List.flatMap_nil, List.append_nil]
  | cons next texts ih =>
      rw [List.intercalate_cons_cons, ih, List.flatMap_cons, List.append_assoc, List.append_assoc]

theorem mem_sep_or_text {sep : List Char} {texts : List (List Char)} {c : Char}
    (h : c ∈ sep.intercalate texts) : c ∈ sep ∨ ∃ text ∈ texts, c ∈ text := by
  cases texts with
  | nil => cases h
  | cons text texts =>
      rw [intercalate_cons_eq_flatMap, List.mem_append, List.mem_flatMap] at h
      rcases h with h | ⟨next, hnext, h⟩
      · exact .inr ⟨text, List.mem_cons_self, h⟩
      · rcases List.mem_append.1 h with h | h
        · exact .inl h
        · exact .inr ⟨next, List.mem_cons_of_mem text hnext, h⟩

/-- The blank behind a comma belongs to the next argument. -/
theorem intercalate_comma_blank (text : List Char) (texts : List (List Char)) :
    [',', ' '].intercalate (text :: texts) = [','].intercalate (text :: texts.map (' ' :: ·)) := by
  rw [intercalate_cons_eq_flatMap, intercalate_cons_eq_flatMap, List.flatMap_map]
  rfl

theorem readArguments_joined {t : Term} {ts : List Term} (h : ∀ u ∈ t :: ts, u.WellFormed) :
    readArguments ([',', ' '].intercalate ((t :: ts).map fun u => u.name.toList)) =
      .ok (t :: ts) := by
  have ht := h t List.mem_cons_self
  have hne : t.name.toList ≠ [] := by simpa using ht.nonempty
  have hblank : ¬allBlank ([',', ' '].intercalate ((t :: ts).map fun u => u.name.toList)) =
      true := by
    rw [List.map_cons, intercalate_cons_eq_flatMap, allBlank_append,
      allBlank_eq_false hne ht.trimmed]
    simp
  have hcomma : ∀ text ∈ t.name.toList :: (ts.map fun u => u.name.toList).map (' ' :: ·),
      ',' ∉ text := by
    intro text htext hmem
    rcases List.mem_cons.1 htext with rfl | htext
    · exact (ht.plain ',' hmem).2.2 rfl
    · rw [List.map_map, List.mem_map] at htext
      obtain ⟨u, hu, rfl⟩ := htext
      rcases List.mem_cons.1 hmem with hmem | hmem
      · cases hmem
      · exact ((h u (List.mem_cons_of_mem t hu)).plain ',' hmem).2.2 rfl
  rw [readArguments, if_neg hblank, List.map_cons, intercalate_comma_blank,
    List.splitOn_intercalate ',' hcomma (by simp), Fallible.mapM_eq_ok]
  refine .cons (ht.readArgument_eq [] rfl) ?_
  rw [List.map_map, List.forall₂_map_left_iff, List.forall₂_same]
  intro u hu
  exact (h u (List.mem_cons_of_mem t hu)).readArgument_eq [' '] (by decide)

namespace Literal

def signText (l : Literal) : List Char := if l.negated then ['¬'] else []

/-- The arguments in their parentheses. -/
def argumentText (l : Literal) : List Char :=
  if l.args = [] then []
  else '(' :: ([',', ' '].intercalate (l.args.map fun t => t.name.toList) ++ [')'])

theorem toList_text (l : Literal) :
    l.text.toList = (l.signText ++ l.name.toList) ++ l.argumentText := by
  obtain ⟨name, args, negated⟩ := l
  cases negated <;> cases args <;>
    simp [text, signText, argumentText, String.toList_intercalate, Function.comp_def]

theorem argumentText_cases (l : Literal) :
    l.args = [] ∧ l.argumentText = [] ∨
      l.args ≠ [] ∧ l.argumentText =
        '(' :: ([',', ' '].intercalate (l.args.map fun t => t.name.toList) ++ [')']) := by
  unfold argumentText
  split
  · next h => exact .inl ⟨h, rfl⟩
  · next h => exact .inr ⟨h, rfl⟩

namespace WellFormed

variable {l : Literal} (h : l.WellFormed)

include h

theorem toList_name_ne_nil : l.name.toList ≠ [] := by simpa using h.nonempty

/-- In front of the arguments there is one word, the sign and the name. -/
theorem head_chars : ∀ c ∈ l.signText ++ l.name.toList,
    isParenthesis c = false ∧ c ≠ ',' ∧ c ≠ '∨' ∧ isBlank c = false := by
  intro c hc
  rcases List.mem_append.1 hc with hc | hc
  · have hsign : c = '¬' := by
      unfold signText at hc
      split at hc
      · exact List.mem_singleton.1 hc
      · cases hc
    rw [hsign]
    decide
  · obtain ⟨hopening, hclosing, hcomma, hor, hblank⟩ := h.plain c hc
    exact ⟨isParenthesis_eq_false.2 ⟨hopening, hclosing⟩, hcomma, hor, hblank⟩

theorem argument_chars : ∀ c ∈ [',', ' '].intercalate (l.args.map fun t => t.name.toList),
    isParenthesis c = false := by
  intro c hc
  rcases mem_sep_or_text hc with hc | ⟨text, htext, hc⟩
  · have hsep : c = ',' ∨ c = ' ' := by simpa using hc
    rcases hsep with rfl | rfl <;> decide
  · obtain ⟨t, ht, rfl⟩ := List.mem_map.1 htext
    exact (h.args t ht).isParenthesis_eq_false hc

theorem text_trimmed : l.text.toList ≠ [] ∧ Trimmed l.text.toList := by
  have hhead : l.signText ++ l.name.toList ≠ [] := by simp [h.toList_name_ne_nil]
  have hword : ∀ c ∈ l.signText ++ l.name.toList, isBlank c = false :=
    fun c hc => (h.head_chars c hc).2.2.2
  have hfirst : (l.signText ++ l.name.toList).head?.any isBlank = false := by
    rw [List.head?_eq_some_head hhead]
    exact hword _ (List.head_mem hhead)
  rw [toList_text]
  rcases l.argumentText_cases with ⟨-, hargs⟩ | ⟨-, hargs⟩
  · rw [hargs, List.append_nil]
    refine ⟨hhead, hfirst, ?_⟩
    rw [List.getLast?_eq_some_getLast hhead]
    exact hword _ (List.getLast_mem hhead)
  · rw [hargs]
    refine ⟨by simp, trimmed_append hhead (by simp) hfirst ?_⟩
    rw [← List.cons_append, List.getLast?_concat]
    decide

theorem readArgumentList_eq :
    readArgumentList (l.argumentText.dropWhile isBlank) = .ok l.args := by
  rcases l.argumentText_cases with ⟨hnil, hargs⟩ | ⟨hne, hargs⟩
  · rw [hargs, hnil]
    rfl
  · obtain ⟨t, ts, hts⟩ := List.exists_cons_of_ne_nil hne
    have hwf : ∀ u ∈ t :: ts, u.WellFormed := fun u hu => h.args u (hts ▸ hu)
    have hopening : ∀ text, ('(' :: text).dropWhile isBlank = '(' :: text :=
      fun text => dropWhile_of_head? (by rw [List.head?_cons]; decide)
    rw [hargs, hopening, readArgumentList, List.getLast?_concat, List.dropLast_concat, hts,
      readArguments_joined hwf]
    rfl

/-- The signs end where the name begins. -/
theorem signs_split :
    l.text.toList.takeWhile (fun c => isNegationMark c || isBlank c) = l.signText ∧
      l.text.toList.dropWhile (fun c => isNegationMark c || isBlank c) =
        l.name.toList ++ l.argumentText := by
  obtain ⟨first, rest, hname⟩ := List.exists_cons_of_ne_nil h.toList_name_ne_nil
  have hsigns : ∀ c ∈ l.signText, (isNegationMark c || isBlank c) = true := by
    unfold signText
    split <;> simp [isNegationMark]
  have hfirst : (isNegationMark first || isBlank first) = false := by
    have hmark := h.unmarked
    have hblank := (h.plain first (by simp [hname])).2.2.2.2
    rw [hname] at hmark
    rw [hblank, Bool.or_false]
    exact hmark
  rw [toList_text, List.append_assoc]
  exact takeWhile_append_of_head? hsigns (by rw [hname]; exact hfirst)

/-- The name ends where the parentheses begin. -/
theorem name_split :
    (l.name.toList ++ l.argumentText).takeWhile isNameChar = l.name.toList ∧
      (l.name.toList ++ l.argumentText).dropWhile isNameChar = l.argumentText := by
  have hword : ∀ c ∈ l.name.toList, isNameChar c = true := by
    intro c hc
    obtain ⟨hparenthesis, hcomma, -, hblank⟩ := h.head_chars c (List.mem_append_right _ hc)
    simp [isNameChar, hparenthesis, hcomma, hblank]
  have hend : l.argumentText.head?.any isNameChar = false := by
    rcases l.argumentText_cases with ⟨-, hargs⟩ | ⟨-, hargs⟩
    · rw [hargs]
      rfl
    · rw [hargs, List.head?_cons]
      decide
  exact takeWhile_append_of_head? hword hend

theorem literalOf_text : literalOf l.text.toList = .ok l := by
  obtain ⟨htakeSigns, hdropSigns⟩ := h.signs_split
  obtain ⟨htakeName, hdropName⟩ := h.name_split
  have hne := h.toList_name_ne_nil
  have hcount : decide (l.signText.countP isNegationMark % 2 = 1) = l.negated := by
    unfold signText
    cases l.negated <;> decide
  unfold literalOf
  dsimp only
  rw [htakeSigns, hdropSigns, htakeName, hdropName, h.readArgumentList_eq, if_neg (by simp [hne]),
    if_neg (by simp [hne]), hcount, String.ofList_toList]
  rfl

theorem readLiteral_text : readLiteral l.text.toList = .ok l := by
  rw [readLiteral, trim_eq_self h.text_trimmed.2, h.literalOf_text]

theorem uncut_argumentText (cuts : CutRule) (piece : List Char) :
    Uncut cuts piece l.argumentText := by
  rcases l.argumentText_cases with ⟨-, hargs⟩ | ⟨-, hargs⟩
  · rw [hargs]
    exact Uncut.nil
  · rw [hargs]
    exact uncut_parenthesized h.argument_chars

theorem uncut_cutsClauses (piece : List Char) : Uncut cutsClauses piece l.text.toList := by
  rw [toList_text]
  refine Uncut.append (uncut_of_forall fun c hc => ?_) (h.uncut_argumentText _ _)
  obtain ⟨hparenthesis, hcomma, -⟩ := h.head_chars c hc
  exact ⟨hparenthesis, fun _ _ => decide_eq_false hcomma⟩

/-- No `V` of the literal cuts. Up to the first character of the name the piece is blank or ends
with the sign, and from there on it ends with a character of the name. -/
theorem uncut_cutsLiterals {piece : List Char} (hpiece : allBlank piece = true) :
    Uncut cutsLiterals piece l.text.toList := by
  rw [toList_text]
  refine Uncut.append ?_ (h.uncut_argumentText _ _)
  refine uncut_of_invariant (P := fun piece => ∀ rest, cutsLiterals piece 'V' rest = false) ?_ ?_
  · intro rest
    simp [cutsLiterals, hpiece]
  · intro c hc piece hkeep
    obtain ⟨hparenthesis, -, hor, hblank⟩ := h.head_chars c hc
    refine ⟨hparenthesis, fun rest => ?_, fun rest => ?_⟩
    · by_cases hletter : c = 'V'
      · rw [hletter]
        exact hkeep rest
      · simp [cutsLiterals, hor, hletter]
    · simp [cutsLiterals, hblank, (isParenthesis_eq_false.1 hparenthesis).2]

theorem separable : Separable cutsLiterals [' '] 'V' l.text.toList where
  trimmed := h.text_trimmed.2
  uncut _ hpiece := h.uncut_cutsLiterals hpiece
  behind _ _ := by
    refine uncut_of_forall fun c hc => ?_
    rw [List.mem_singleton.1 hc]
    exact ⟨by decide, fun _ _ => by simp [cutsLiterals]⟩
  cut piece rest _ := by
    have htext : allBlank l.text.toList.reverse = false := by
      rw [allBlank, List.all_reverse]
      exact allBlank_eq_false h.text_trimmed.1 h.text_trimmed.2
    have hblank : allBlank (' ' :: (l.text.toList.reverse ++ piece)) = false := by
      rw [← List.singleton_append, allBlank_append, allBlank_append, htext]
      simp
    have hspace : isBlank ' ' = true := by decide
    simp [cutsLiterals, hblank, hspace]

end WellFormed

end Literal

namespace Clause

variable {c : Clause}

theorem toList_name (hne : c.literals ≠ []) :
    c.name.toList = [' ', 'V', ' '].intercalate (c.literals.map fun l => l.text.toList) := by
  have hempty : ¬c.isEmpty = true := by simpa [isEmpty] using hne
  rw [name, if_neg hempty, String.toList_intercalate, List.map_map]
  rfl

variable (hne : c.literals ≠ []) (h : ∀ l ∈ c.literals, l.WellFormed)

include hne h

theorem name_trimmed : c.name.toList ≠ [] ∧ Trimmed c.name.toList := by
  rw [toList_name hne]
  refine trimmed_intercalate (by simpa using hne) fun text htext => ?_
  obtain ⟨l, hl, rfl⟩ := List.mem_map.1 htext
  exact (h l hl).text_trimmed

theorem readClause_name : readClause c.name.toList = .ok c := by
  obtain ⟨hne', htrimmed⟩ := name_trimmed hne h
  have hparts : trimmedPieces cutsLiterals c.name.toList =
      .ok (c.literals.map fun l => l.text.toList) := by
    rw [toList_name hne]
    refine trimmedPieces_joined [' '] 'V' (by decide) (by decide)
      (fun _ => by simp [cutsLiterals]) (by simpa using hne) fun text htext => ?_
    obtain ⟨l, hl, rfl⟩ := List.mem_map.1 htext
    exact (h l hl).separable
  have hliterals : (c.literals.map fun l => l.text.toList).mapM readLiteral = .ok c.literals := by
    rw [Fallible.mapM_eq_ok, List.forall₂_map_left_iff, List.forall₂_same]
    exact fun l hl => (h l hl).readLiteral_text
  rw [readClause, if_neg (by simp [allBlank_eq_false hne' htrimmed])]
  refine Fallible.bind_eq_ok.2 ⟨_, hparts, ?_⟩
  exact Fallible.bind_eq_ok.2 ⟨c.literals, hliterals, rfl⟩

theorem separable_name : Separable cutsClauses [] ',' c.name.toList where
  trimmed := (name_trimmed hne h).2
  uncut piece _ := by
    rw [toList_name hne]
    refine Uncut.intercalate (fun _ => ?_) (fun text htext => ?_) piece
    · refine uncut_of_forall fun c hc => ?_
      have hsep : c = ' ' ∨ c = 'V' ∨ c = ' ' := by simpa using hc
      rcases hsep with rfl | rfl | rfl <;>
        exact ⟨by decide, fun _ _ => decide_eq_false (by decide)⟩
    · obtain ⟨l, hl, rfl⟩ := List.mem_map.1 htext
      exact (h l hl).uncut_cutsClauses
  behind _ _ := Uncut.nil
  cut _ _ _ := by simp [cutsClauses]

end Clause

/-- There is a literal, and every literal can be printed. -/
structure Clause.WellFormed (c : Clause) : Prop where
  nonempty : c.literals ≠ []
  literals : ∀ l ∈ c.literals, l.WellFormed

/-- Clause texts that can be told apart are read one by one. -/
theorem ClauseText.readClauseSet_joined {texts : List (List Char)} {cs : List Clause}
    (hne : texts ≠ []) (h : ∀ t ∈ texts, t ≠ [] ∧ Separable cutsClauses [] ',' t)
    (hread : List.Forall₂ (fun t c => readClause t = .ok c) texts cs) :
    readClauseSet ([',', ' '].intercalate texts) = .ok cs := by
  have hjoined : [',', ' '].intercalate texts ≠ [] ∧ Trimmed ([',', ' '].intercalate texts) :=
    trimmed_intercalate hne fun t ht => ⟨(h t ht).1, (h t ht).2.trimmed⟩
  have hparts : trimmedPieces cutsClauses ([',', ' '].intercalate texts) = .ok texts :=
    trimmedPieces_joined [] ',' rfl (by decide) (fun _ => by simp [cutsClauses]) hne
      fun t ht => (h t ht).2
  rw [readClauseSet, if_neg (by simp [allBlank_eq_false hjoined.1 hjoined.2])]
  exact Fallible.bind_eq_ok.2 ⟨texts, hparts, Fallible.mapM_eq_ok.2 hread⟩

theorem Clause.toList_joined_names (cs : List Clause) :
    (", ".intercalate (cs.map Clause.name)).toList =
      [',', ' '].intercalate (cs.map fun c => c.name.toList) := by
  rw [String.toList_intercalate, List.map_map]
  rfl

theorem Clause.parseClauses_names {cs : List Clause} (hne : cs ≠ [])
    (h : ∀ c ∈ cs, c.WellFormed) :
    parseClauses (", ".intercalate (cs.map Clause.name)) = .ok cs := by
  rw [parseClauses, toList_joined_names]
  refine readClauseSet_joined (by simpa using hne) (fun text htext => ?_) ?_
  · obtain ⟨c, hc, rfl⟩ := List.mem_map.1 htext
    exact ⟨(name_trimmed (h c hc).nonempty (h c hc).literals).1,
      separable_name (h c hc).nonempty (h c hc).literals⟩
  · rw [List.forall₂_map_left_iff, List.forall₂_same]
    exact fun c hc => readClause_name (h c hc).nonempty (h c hc).literals

/-- Every list of clauses of well-formed literals, with at least one clause and at least one literal
in each, is read back from its clauses' names joined by commas: the same clauses, literals and
arguments in the same order and with the same signs. -/
theorem parseClauses_joined_names {cs : List Clause} (hne : cs ≠ [])
    (hcs : ∀ c ∈ cs, c.literals ≠ []) (h : ∀ c ∈ cs, ∀ l ∈ c.literals, l.WellFormed) :
    parseClauses (", ".intercalate (cs.map Clause.name)) = .ok cs :=
  Clause.parseClauses_names hne fun c hc => ⟨hcs c hc, h c hc⟩

/-- The letter as a name, with and without arguments and sign, at the beginning of a name, and with
both signs and a line feed inside an argument. -/
theorem parseClauses_joined_names_with_letters :
    let cs : List Clause := [⟨[⟨"V", [], false⟩, ⟨"V", [], false⟩]⟩,
      ⟨[⟨"V", [], true⟩, ⟨"V", [.const "a"], false⟩]⟩,
      ⟨[⟨"Victory", [.const "V ∨ V\n¬", .var "x"], false⟩, ⟨"P¬V", [], true⟩]⟩]
    ", ".intercalate (cs.map Clause.name) =
        "V V V, ¬V V V(a), Victory(V ∨ V\n¬, x) V ¬P¬V" ∧
      parseClauses "V V V, ¬V V V(a), Victory(V ∨ V\n¬, x) V ¬P¬V" = .ok cs := by
  intro cs
  have hprinted : ", ".intercalate (cs.map Clause.name) =
      "V V V, ¬V V V(a), Victory(V ∨ V\n¬, x) V ¬P¬V" := by
    subst cs
    decide +kernel
  refine ⟨hprinted, ?_⟩
  rw [← hprinted]
  refine parseClauses_joined_names (List.cons_ne_nil _ _) ?_ ?_
  · subst cs
    decide
  · subst cs
    decide +kernel

end Resolution
