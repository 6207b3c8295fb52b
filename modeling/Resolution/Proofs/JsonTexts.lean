import Resolution.Json

/-!
# Reading JSON as it was written

Every value without decimals is read back from its text, at whatever depth it is written and
whatever follows it, as long as that is what follows a value in a text: a comma, a line break or
nothing. A decimal is kept as it is written, so its text need not be that of a number.
-/

namespace Resolution.Json

/-- The value holds no decimal. -/
inductive DecimalFree : Json → Prop
  | null : DecimalFree null
  | bool (value : Bool) : DecimalFree (bool value)
  | int (value : Int) : DecimalFree (int value)
  | str (value : String) : DecimalFree (str value)
  | arr {items : List Json} (h : ∀ item ∈ items, DecimalFree item) : DecimalFree (arr items)
  | obj {fields : List (String × Json)} (h : ∀ field ∈ fields, DecimalFree field.2) :
      DecimalFree (obj fields)

/-- What stands behind a value in a text. -/
inductive EndsValue : List Char → Prop
  | nothing : EndsValue []
  | comma (rest : List Char) : EndsValue (',' :: rest)
  | newLine (rest : List Char) : EndsValue ('\n' :: rest)

theorem skipSpace_lineBreak (depth : Nat) (text : List Char) :
    skipSpace (lineBreak depth ++ text) = skipSpace text := by
  apply List.dropWhile_append_of_pos
  intro c hc
  rcases List.mem_cons.1 hc with rfl | hc
  · rfl
  · rw [List.eq_of_mem_replicate hc]
    rfl

theorem skipSpace_cons (c : Char) (text : List Char) :
    skipSpace (c :: text) = if isSpace c then skipSpace text else c :: text :=
  List.dropWhile_cons

theorem readString_quote (rest : List Char) : readString ('\x22' :: rest) = some ([], rest) := by
  rw [readString.eq_def]
  simp

theorem hexUnit?_control :
    ∀ n < 32, hexUnit? '0' '0' (hexDigit (n / 16)) (hexDigit n) = some n := by
  decide

/-- The three ways in which a character is written inside a string. -/
theorem escaped_cases (c : Char) :
    (∃ letter, (c, letter) ∈ shortEscapes ∧ escaped c = ['\\', letter]) ∨
    (c.toNat < 0x20 ∧
      escaped c = ['\\', 'u', '0', '0', hexDigit (c.toNat / 16), hexDigit c.toNat]) ∨
    (c ≠ '\x22' ∧ c ≠ '\\' ∧ 0x20 ≤ c.toNat ∧ escaped c = [c]) := by
  rw [escaped]
  cases hlookup : shortEscapes.lookup c with
  | some letter =>
      obtain ⟨front, back, heq, -⟩ := List.lookup_eq_some_iff.1 hlookup
      exact .inl ⟨letter, by simp [heq], rfl⟩
  | none =>
      have hshort : ∀ entry ∈ shortEscapes, c ≠ entry.1 := by
        simpa using List.lookup_eq_none_iff.1 hlookup
      by_cases hcontrol : c.toNat < 0x20
      · exact .inr (.inl ⟨hcontrol, if_pos hcontrol⟩)
      · exact .inr (.inr ⟨hshort ('\x22', '\x22') (by decide), hshort ('\\', '\\') (by decide),
          by omega, if_neg hcontrol⟩)

/-- An escape is undone, whatever follows it. -/
theorem readString_escaped (c : Char) (text : List Char) :
    readString (escaped c ++ text) =
      (readString text).map fun (value, after) => (c :: value, after) := by
  rcases escaped_cases c with ⟨letter, hmem, heq⟩ | ⟨hcontrol, heq⟩ |
    ⟨hquote, hbackslash, hcontrol, heq⟩
  · rw [heq]
    simp only [shortEscapes, List.mem_cons, Prod.mk.injEq, List.not_mem_nil, or_false] at hmem
    rcases hmem with ⟨rfl, rfl⟩ | ⟨rfl, rfl⟩ | ⟨rfl, rfl⟩ | ⟨rfl, rfl⟩ | ⟨rfl, rfl⟩ | ⟨rfl, rfl⟩ |
      ⟨rfl, rfl⟩ <;> rfl
  · have hunit := hexUnit?_control c.toNat hcontrol
    have hhigh : isHighSurrogate c.toNat = false := by
      simp only [isHighSurrogate, Bool.and_eq_false_imp, decide_eq_true_eq]
      omega
    have hlow : isLowSurrogate c.toNat = false := by
      simp only [isLowSurrogate, Bool.and_eq_false_imp, decide_eq_true_eq]
      omega
    rw [heq, readString.eq_def]
    simp [hunit, hhigh, hlow]
  · rw [heq, List.singleton_append, readString.eq_def]
    simp only [hquote, hbackslash, Nat.not_lt.2 hcontrol, ↓reduceIte]

theorem readString_flatMap_escaped (value rest : List Char) :
    readString (value.flatMap escaped ++ '\x22' :: rest) = some (value, rest) := by
  induction value with
  | nil => exact readString_quote rest
  | cons c value ih =>
      rw [List.flatMap_cons, List.append_assoc, readString_escaped, ih]
      rfl

theorem stringChars_append (value : String) (rest : List Char) :
    stringChars value ++ rest = '\x22' :: (value.toList.flatMap escaped ++ '\x22' :: rest) := by
  simp [stringChars]

theorem skipSpace_stringChars (value : String) (rest : List Char) :
    skipSpace (stringChars value ++ rest) = stringChars value ++ rest :=
  rfl

theorem chars_int (depth : Nat) (n : Int) :
    chars depth (int n) = (if n < 0 then ['-'] else []) ++ Nat.toDigits 10 n.natAbs := by
  rw [chars, Int.toString_eq_repr, Int.repr_eq_if]
  by_cases hn : n < 0
  · have hneg : ¬ 0 ≤ n := by omega
    have habs : (-n).toNat = n.natAbs := by omega
    rw [if_neg hneg, if_pos hn, habs, String.toList_append, Nat.toList_repr]
    rfl
  · have hpos : 0 ≤ n := by omega
    have habs : n.toNat = n.natAbs := by omega
    rw [if_pos hpos, if_neg hn, habs, Nat.toList_repr]
    rfl

theorem isDigit_of_mem_toDigits {n : Nat} {c : Char} (hc : c ∈ Nat.toDigits 10 n) :
    c.isDigit = true :=
  Nat.isDigit_of_mem_toDigits (by decide) (by decide) hc

/-- The digits of a number are not empty, and only zero has a leading zero. -/
theorem exists_toDigits_eq_cons (n : Nat) :
    ∃ c tail, Nat.toDigits 10 n = c :: tail ∧ c.isDigit = true ∧ (n ≠ 0 → c ≠ '0') := by
  induction n using Nat.strongRecOn with
  | ind n ih =>
      rw [Nat.toDigits_eq_if (by decide)]
      split
      next hlt =>
        have hdigit : ∀ d < 10, d.digitChar.isDigit = true ∧ (d ≠ 0 → d.digitChar ≠ '0') := by
          decide
        exact ⟨n.digitChar, [], rfl, hdigit n hlt⟩
      next hge =>
        obtain ⟨c, tail, heq, hc, hzero⟩ := ih (n / 10) (by omega)
        refine ⟨c, tail ++ [(n % 10).digitChar], ?_, hc, fun _ => hzero (by omega)⟩
        rw [heq, List.cons_append]

theorem integerDigits_toDigits (n : Nat) {rest : List Char} (h : EndsValue rest) :
    integerDigits (Nat.toDigits 10 n ++ rest) = Nat.toDigits 10 n := by
  by_cases hn : n = 0
  · subst hn
    rfl
  · obtain ⟨c, tail, heq, -, hzero⟩ := exists_toDigits_eq_cons n
    have hrun : integerDigits (Nat.toDigits 10 n ++ rest) =
        (Nat.toDigits 10 n ++ rest).takeWhile Char.isDigit := by
      rw [heq, List.cons_append, integerDigits]
      intro _ hcons
      exact hzero hn (List.cons.inj hcons).1
    have hrest : rest.takeWhile Char.isDigit = [] := by cases h <;> rfl
    rw [hrun, List.takeWhile_append_of_pos fun c => isDigit_of_mem_toDigits, hrest,
      List.append_nil]

theorem digitsValue_toDigits (n : Nat) : digitsValue (Nat.toDigits 10 n) = n := by
  rw [digitsValue, ← Nat.ofDigitChars_eq_foldl, Nat.ofDigitChars_toDigits] <;> decide

theorem fractionChars_eq_nil {rest : List Char} (h : EndsValue rest) : fractionChars rest = [] := by
  cases h <;> rfl

theorem exponentChars_eq_nil {rest : List Char} (h : EndsValue rest) : exponentChars rest = [] := by
  cases h <;> rfl

theorem readNumber_signed (sign : List Char) {text rest : List Char} {n : Nat}
    (hsign : (if text.head? = some '-' then ['-'] else []) = sign)
    (hbody : text.drop sign.length = Nat.toDigits 10 n ++ rest) (h : EndsValue rest) :
    readNumber text = some (int (if sign.isEmpty then (n : Int) else -n), rest) := by
  have hne : (Nat.toDigits 10 n).isEmpty = false := by
    rw [List.isEmpty_eq_false_iff]
    exact Nat.toDigits_ne_nil
  simp only [readNumber, hsign, hbody, integerDigits_toDigits n h, hne, List.drop_left,
    fractionChars_eq_nil h, List.length_nil, List.drop_zero, exponentChars_eq_nil h,
    digitsValue_toDigits, List.isEmpty_nil, Bool.and_self, Bool.false_eq_true, Nat.add_zero,
    ↓reduceIte]

theorem readNumber_chars_int (depth : Nat) (n : Int) {rest : List Char} (h : EndsValue rest) :
    readNumber (chars depth (int n) ++ rest) = some (int n, rest) := by
  rw [chars_int]
  by_cases hn : n < 0
  · have habs : -(n.natAbs : Int) = n := by omega
    rw [if_pos hn, readNumber_signed ['-'] rfl rfl h, List.isEmpty_cons,
      if_neg Bool.false_ne_true, habs]
  · obtain ⟨c, tail, heq, hc, -⟩ := exists_toDigits_eq_cons n.natAbs
    have hminus : c ≠ '-' := by
      rintro rfl
      exact absurd hc (by decide)
    rw [if_neg hn, List.nil_append, readNumber_signed [] (n := n.natAbs) _ rfl h]
    · have habs : (n.natAbs : Int) = n := by omega
      rw [List.isEmpty_nil, if_pos rfl, habs]
    · simp [heq, hminus]

theorem exists_chars_int_eq_cons (depth : Nat) (n : Int) :
    ∃ c tail, chars depth (int n) = c :: tail ∧ (c = '-' ∨ c.isDigit = true) := by
  obtain ⟨c, tail, heq, hc, -⟩ := exists_toDigits_eq_cons n.natAbs
  rw [chars_int, heq]
  by_cases hn : n < 0
  · exact ⟨'-', c :: tail, by rw [if_pos hn]; rfl, .inl rfl⟩
  · exact ⟨c, tail, by rw [if_neg hn]; rfl, .inr hc⟩

/-- A sign or a digit begins a number and no other value. -/
theorem readValue_number {c : Char} (hc : c = '-' ∨ c.isDigit = true) (steps : Nat)
    (text : List Char) : readValue (steps + 1) (c :: text) = readNumber (c :: text) := by
  rcases hc with rfl | hc
  · rfl
  · have hother : ∀ d : Char, d.isDigit = false → c ≠ d := by
      rintro d hd rfl
      rw [hc] at hd
      exact Bool.noConfusion hd
    have hword : readWord (c :: text) = none := by
      simp [readWord, words, Ne.symm (hother 'n' rfl), Ne.symm (hother 't' rfl),
        Ne.symm (hother 'f' rfl), Ne.symm (hother 'N' rfl)]
    rw [readValue, if_neg (hother _ rfl), if_neg (hother _ rfl), if_neg (hother _ rfl), hword]

/-- No value begins with a space or with a closing bracket. -/
theorem readValue_eq_none {c : Char} (hc : isSpace c = true ∨ c = ']') (steps : Nat)
    (text : List Char) : readValue steps (c :: text) = none := by
  cases steps with
  | zero => rfl
  | succ steps =>
      simp only [isSpace, Bool.or_eq_true, decide_eq_true_eq] at hc
      rcases hc with (((rfl | rfl) | rfl) | rfl) | rfl <;> rfl

theorem skipSpace_of_readValue {steps : Nat} {text : List Char} {found : Json × List Char}
    (h : readValue steps text = some found) : skipSpace text = text := by
  cases text with
  | nil => rfl
  | cons c text =>
      rw [skipSpace_cons, if_neg]
      intro hc
      simp [readValue_eq_none (.inl hc)] at h

section

variable {steps : Nat} {text rest more after : List Char} {item : Json} {items : List Json}

theorem skipSpace_of_readItems {found : List Json × List Char}
    (h : readItems steps text = some found) : skipSpace text = text := by
  cases steps with
  | zero => simp [readItems] at h
  | succ steps =>
      cases hitem : readValue steps text with
      | none => simp [readItems, hitem] at h
      | some value => exact skipSpace_of_readValue hitem

theorem readItems_bracket (steps : Nat) (text : List Char) :
    readItems steps (']' :: text) = none := by
  cases steps with
  | zero => rfl
  | succ steps => rw [readItems, readValue_eq_none (.inr rfl)]

theorem readItems_last (hitem : readValue steps text = some (item, rest))
    (hrest : skipSpace rest = ']' :: after) :
    readItems (steps + 1) text = some ([item], after) := by
  rw [readItems, hitem]
  simp only [hrest]

theorem readItems_more (hitem : readValue steps text = some (item, rest))
    (hrest : skipSpace rest = ',' :: more)
    (hmore : readItems steps (skipSpace more) = some (items, after)) :
    readItems (steps + 1) text = some (item :: items, after) := by
  rw [readItems, hitem]
  simp only [hrest, hmore, Option.map_some]

/-- No item begins with a closing bracket, so an array with items is not taken for an empty one. -/
theorem readValue_arr (h : readItems steps (skipSpace text) = some (items, after)) :
    readValue (steps + 1) ('[' :: text) = some (arr items, after) := by
  rw [readValue, if_neg (by decide), if_pos rfl]
  split
  next heq => simp [heq, readItems_bracket] at h
  next => rw [h, Option.map_some]

end

section

variable {steps : Nat} {text rest more after : List Char} {key : String} {value : Json}
  {fields : List (String × Json)}

theorem readFields_last (hvalue : readValue steps text = some (value, rest))
    (hrest : skipSpace rest = '\x7d' :: after) :
    readFields (steps + 1) (stringChars key ++ ':' :: ' ' :: text) =
      some ([(key, value)], after) := by
  rw [stringChars_append, readFields, readString_flatMap_escaped]
  simp [skipSpace_cons, isSpace, skipSpace_of_readValue hvalue, hvalue, hrest]

theorem readFields_more (hvalue : readValue steps text = some (value, rest))
    (hrest : skipSpace rest = ',' :: more)
    (hmore : readFields steps (skipSpace more) = some (fields, after)) :
    readFields (steps + 1) (stringChars key ++ ':' :: ' ' :: text) =
      some ((key, value) :: fields, after) := by
  rw [stringChars_append, readFields, readString_flatMap_escaped]
  simp [skipSpace_cons, isSpace, skipSpace_of_readValue hvalue, hvalue, hrest, hmore]

theorem readFields_brace (steps : Nat) (text : List Char) :
    readFields steps ('\x7d' :: text) = none := by
  cases steps <;> rfl

theorem readValue_obj (h : readFields steps (skipSpace text) = some (fields, after)) :
    readValue (steps + 1) ('\x7b' :: text) = some (obj fields, after) := by
  rw [readValue, if_neg (by decide), if_neg (by decide), if_pos rfl]
  split
  next heq => simp [heq, readFields_brace] at h
  next => rw [h, Option.map_some]

end

/-- At this depth the value is read back, whatever follows it. A text is longer than its values
nest, so its length is enough as the number of steps. -/
def ReadsBack (depth : Nat) (value : Json) : Prop :=
  ∀ steps rest, EndsValue rest → (chars depth value).length < steps →
    readValue steps (chars depth value ++ rest) = some (value, rest)

theorem ReadsBack.of_succ {depth : Nat} {value : Json}
    (h : ∀ steps rest, EndsValue rest → (chars depth value).length ≤ steps →
      readValue (steps + 1) (chars depth value ++ rest) = some (value, rest)) :
    ReadsBack depth value := by
  rintro (_ | steps) rest hrest hsteps
  · simp at hsteps
  · exact h steps rest hrest (by omega)

theorem endsValue_itemChars (depth outer : Nat) (items : List Json) (after : List Char) :
    EndsValue (itemChars depth items ++ (lineBreak outer ++ after)) := by
  cases items with
  | nil => exact .newLine _
  | cons item items => exact .comma _

/-- Items that are read back one by one are read back in a row. -/
theorem readItems_itemChars {depth : Nat} (outer : Nat) {item : Json} {items : List Json}
    (h : ∀ value ∈ item :: items, ReadsBack depth value) (after : List Char) (steps : Nat)
    (hsteps : (chars depth item).length + (itemChars depth items).length + 1 < steps) :
    readItems steps (chars depth item ++
      (itemChars depth items ++ (lineBreak outer ++ ']' :: after))) =
        some (item :: items, after) := by
  induction items generalizing item steps with
  | nil =>
      obtain ⟨steps, rfl⟩ : ∃ n, steps = n + 1 := ⟨steps - 1, by omega⟩
      have hitem := h item (by simp) steps (lineBreak outer ++ ']' :: after) (.newLine _) (by omega)
      exact readItems_last hitem (skipSpace_lineBreak outer _)
  | cons next items ih =>
      obtain ⟨steps, rfl⟩ : ∃ n, steps = n + 1 := ⟨steps - 1, by omega⟩
      simp only [itemChars, List.length_cons, List.length_append] at hsteps
      have hitem := h item (by simp) steps _
        (endsValue_itemChars depth outer (next :: items) (']' :: after)) (by omega)
      have hmore := ih (fun value hvalue => h value (.tail _ hvalue)) steps (by omega)
      have hrest : skipSpace (itemChars depth (next :: items) ++
          (lineBreak outer ++ ']' :: after)) = ',' :: (lineBreak depth ++ (chars depth next ++
            (itemChars depth items ++ (lineBreak outer ++ ']' :: after)))) := by
        simp [itemChars, skipSpace_cons, isSpace]
      apply readItems_more hitem hrest
      rw [skipSpace_lineBreak, skipSpace_of_readItems hmore]
      exact hmore

theorem endsValue_fieldChars (depth outer : Nat) (fields : List (String × Json))
    (after : List Char) : EndsValue (fieldChars depth fields ++ (lineBreak outer ++ after)) := by
  cases fields with
  | nil => exact .newLine _
  | cons field fields => exact .comma _

/-- The same for fields, whose keys are always read back. -/
theorem readFields_fieldChars {depth : Nat} (outer : Nat) {field : String × Json}
    {fields : List (String × Json)} (h : ∀ f ∈ field :: fields, ReadsBack depth f.2)
    (after : List Char) (steps : Nat)
    (hsteps : (chars depth field.2).length + (fieldChars depth fields).length + 1 < steps) :
    readFields steps (stringChars field.1 ++ ':' :: ' ' :: (chars depth field.2 ++
      (fieldChars depth fields ++ (lineBreak outer ++ '\x7d' :: after)))) =
        some (field :: fields, after) := by
  induction fields generalizing field steps with
  | nil =>
      obtain ⟨steps, rfl⟩ : ∃ n, steps = n + 1 := ⟨steps - 1, by omega⟩
      have hvalue := h field (by simp) steps (lineBreak outer ++ '\x7d' :: after) (.newLine _)
        (by omega)
      exact readFields_last hvalue (skipSpace_lineBreak outer _)
  | cons next fields ih =>
      obtain ⟨steps, rfl⟩ : ∃ n, steps = n + 1 := ⟨steps - 1, by omega⟩
      simp only [fieldChars, List.length_cons, List.length_append] at hsteps
      have hvalue := h field (by simp) steps _
        (endsValue_fieldChars depth outer (next :: fields) ('\x7d' :: after)) (by omega)
      have hmore := ih (fun f hf => h f (.tail _ hf)) steps (by omega)
      have hrest : skipSpace (fieldChars depth (next :: fields) ++
          (lineBreak outer ++ '\x7d' :: after)) = ',' :: (lineBreak depth ++ (stringChars next.1 ++
            ':' :: ' ' :: (chars depth next.2 ++
              (fieldChars depth fields ++ (lineBreak outer ++ '\x7d' :: after))))) := by
        simp [fieldChars, skipSpace_cons, isSpace]
      apply readFields_more hvalue hrest
      rw [skipSpace_lineBreak, skipSpace_stringChars]
      exact hmore

/-- By induction on the value, the depth left open since the parts of a value stand one deeper. -/
theorem DecimalFree.readsBack {value : Json} (h : DecimalFree value) (depth : Nat) :
    ReadsBack depth value := by
  induction h generalizing depth with
  | null => exact .of_succ fun _ _ _ _ => rfl
  | bool value => cases value <;> exact .of_succ fun _ _ _ _ => rfl
  | int n =>
      apply ReadsBack.of_succ
      intro steps rest hrest _
      obtain ⟨c, tail, heq, hc⟩ := exists_chars_int_eq_cons depth n
      rw [← readNumber_chars_int depth n hrest, heq]
      exact readValue_number hc steps _
  | str value =>
      apply ReadsBack.of_succ
      intro steps rest _ _
      rw [chars, stringChars_append, readValue, if_pos rfl, readString_flatMap_escaped]
      simp
  | @arr items _ ih =>
      apply ReadsBack.of_succ
      intro steps rest _ hsteps
      cases items with
      | nil => rfl
      | cons item items =>
          simp only [chars, List.length_cons, List.length_append] at hsteps
          have hitems := readItems_itemChars depth (fun v hv => ih v hv (depth + 1)) rest
            steps (by omega)
          simp only [chars, List.cons_append, List.append_assoc, List.nil_append]
          apply readValue_arr
          rw [skipSpace_lineBreak, skipSpace_of_readItems hitems]
          exact hitems
  | @obj fields _ ih =>
      apply ReadsBack.of_succ
      intro steps rest _ hsteps
      cases fields with
      | nil => rfl
      | cons field fields =>
          simp only [chars, List.length_cons, List.length_append] at hsteps
          have hfields := readFields_fieldChars depth (fun f hf => ih f hf (depth + 1)) rest
            steps (by omega)
          simp only [chars, List.cons_append, List.append_assoc, List.nil_append]
          apply readValue_obj
          rw [skipSpace_lineBreak, skipSpace_stringChars]
          exact hfields

theorem DecimalFree.parse?_render {value : Json} (h : DecimalFree value) :
    parse? (render value) = some value := by
  have hread := h.readsBack 0 (2 * (render value).length + 1) [] .nothing (by
    rw [render, String.length_ofList]
    omega)
  rw [List.append_nil] at hread
  rw [parse?, render, String.toList_ofList, skipSpace_of_readValue hread]
  simp only [render] at hread
  rw [hread]
  rfl

/-- A line feed, or no control character below U+0020. -/
def Written (c : Char) : Prop := c = '\n' ∨ 0x20 ≤ c.toNat

theorem written_of_all {text : List Char} (h : text.all (fun c => 0x20 ≤ c.toNat) = true) :
    ∀ c ∈ text, Written c := by
  intro c hc
  exact .inr (of_decide_eq_true (List.all_eq_true.1 h c hc))

theorem written_of_mem_escaped {c d : Char} (hd : d ∈ escaped c) : Written d := by
  have hdigits : ∀ n < 16, 0x20 ≤ n.digitChar.toNat := by decide
  have hhex (n : Nat) : 0x20 ≤ (hexDigit n).toNat := hdigits _ (Nat.mod_lt n (by decide))
  have hletters : shortEscapes.all (fun entry => 0x20 ≤ entry.2.toNat) = true := rfl
  rcases escaped_cases c with ⟨letter, hmem, heq⟩ | ⟨-, heq⟩ | ⟨-, -, hcontrol, heq⟩
  · have hletter := of_decide_eq_true (List.all_eq_true.1 hletters _ hmem)
    refine written_of_all ?_ d (heq ▸ hd)
    simp [hletter]
  · refine written_of_all ?_ d (heq ▸ hd)
    simp [hhex]
  · refine written_of_all ?_ d (heq ▸ hd)
    simp [hcontrol]

theorem written_of_mem_stringChars (value : String) : ∀ c ∈ stringChars value, Written c := by
  simp only [stringChars, List.forall_mem_cons, List.forall_mem_append]
  refine ⟨.inr (by decide), fun d hd => ?_, .inr (by decide), by simp⟩
  obtain ⟨c, -, hd⟩ := List.mem_flatMap.1 hd
  exact written_of_mem_escaped hd

theorem written_of_mem_lineBreak (depth : Nat) : ∀ c ∈ lineBreak depth, Written c := by
  refine List.forall_mem_cons.2 ⟨.inl rfl, fun c hc => ?_⟩
  rw [List.eq_of_mem_replicate hc]
  exact .inr (by decide)

theorem written_of_mem_chars_int (depth : Nat) (n : Int) :
    ∀ c ∈ chars depth (int n), Written c := by
  rw [chars_int, List.forall_mem_append]
  constructor
  · split
    · simpa using .inr (by decide)
    · simp
  · intro c hc
    have hdigit := isDigit_of_mem_toDigits hc
    simp only [Char.isDigit, Bool.and_eq_true, decide_eq_true_eq] at hdigit
    exact .inr (Nat.le_trans (by decide) hdigit.1)

theorem written_of_mem_itemChars {depth : Nat} {items : List Json}
    (h : ∀ item ∈ items, ∀ c ∈ chars depth item, Written c) :
    ∀ c ∈ itemChars depth items, Written c := by
  induction items with
  | nil => simp [itemChars]
  | cons item items ih =>
      have hitems := ih fun i hi => h i (.tail _ hi)
      simp only [itemChars, List.forall_mem_cons, List.forall_mem_append]
      exact ⟨.inr (by decide), written_of_mem_lineBreak depth, h item (.head _), hitems⟩

theorem written_of_mem_fieldChars {depth : Nat} {fields : List (String × Json)}
    (h : ∀ field ∈ fields, ∀ c ∈ chars depth field.2, Written c) :
    ∀ c ∈ fieldChars depth fields, Written c := by
  induction fields with
  | nil => simp [fieldChars]
  | cons field fields ih =>
      have hfields := ih fun f hf => h f (.tail _ hf)
      simp only [fieldChars, List.forall_mem_cons, List.forall_mem_append]
      exact ⟨.inr (by decide), written_of_mem_lineBreak depth, written_of_mem_stringChars field.1,
        .inr (by decide), .inr (by decide), h field (.head _), hfields⟩

theorem DecimalFree.written_of_mem_chars {value : Json} (h : DecimalFree value) (depth : Nat) :
    ∀ c ∈ chars depth value, Written c := by
  induction h generalizing depth with
  | null => exact written_of_all rfl
  | bool value => cases value <;> exact written_of_all rfl
  | int n => exact written_of_mem_chars_int depth n
  | str value => exact written_of_mem_stringChars value
  | @arr items _ ih =>
      cases items with
      | nil => exact written_of_all rfl
      | cons item items =>
          have hitems := written_of_mem_itemChars fun i hi => ih i (.tail _ hi) (depth + 1)
          simp only [chars, List.forall_mem_cons, List.forall_mem_append]
          exact ⟨.inr (by decide), written_of_mem_lineBreak _, ih item (.head _) _, hitems,
            written_of_mem_lineBreak _, .inr (by decide), by simp⟩
  | @obj fields _ ih =>
      cases fields with
      | nil => exact written_of_all rfl
      | cons field fields =>
          have hfields := written_of_mem_fieldChars fun f hf => ih f (.tail _ hf) (depth + 1)
          simp only [chars, List.forall_mem_cons, List.forall_mem_append]
          exact ⟨.inr (by decide), written_of_mem_lineBreak _, written_of_mem_stringChars _,
            .inr (by decide), .inr (by decide), ih field (.head _) _, hfields,
            written_of_mem_lineBreak _, .inr (by decide), by simp⟩

end Resolution.Json
