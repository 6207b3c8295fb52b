import Resolution.Proofs.Balance
import Resolution.Proofs.Reading

/-!
# What a parse error says

The fragment of a parse error is a part of the text, without blanks at its ends. An error speaks of
an imbalance exactly if the parentheses of the whole text are not balanced: the whole text is walked
over before any clause of it is read, and the clauses and literals that it is cut into are balanced,
so that walking over a clause does not fail.
-/

namespace Resolution

open Text ClauseText

/-- The faults of a text whose parentheses are not balanced. -/
def ParseFault.isImbalance : ParseFault → Bool
  | unopened | unclosed => true
  | _ => false

namespace ClauseText

/-- The pieces in the answer of a walk: those of the text, or the one in which the imbalance
shows. -/
def answerPieces : Except Imbalance (List (List Char)) → List (List Char)
  | .ok ps => ps
  | .error (.unopened piece) => [piece]
  | .error (.unclosed piece) => [piece]

theorem mem_answerPieces_map {answer : Except Imbalance (List (List Char))} {p q : List Char}
    (h : p ∈ answerPieces (answer.map (q :: ·))) : p = q ∨ p ∈ answerPieces answer := by
  match answer with
  | .ok ps => exact List.mem_cons.1 h
  | .error (.unopened piece) => exact .inr h
  | .error (.unclosed piece) => exact .inr h

/-- Every piece, also one that is not complete, is a part of the text as it stands. -/
theorem Passage.infix_of_mem {cuts : CutRule} {depth : Nat} {piece text p : List Char}
    {answer : Except Imbalance (List (List Char))} (hpassage : Passage cuts depth piece text answer)
    (h : p ∈ answerPieces answer) : p <:+: piece.reverse ++ text := by
  induction hpassage with
  | ends =>
      rw [List.mem_singleton.1 h]
      exact (List.prefix_append _ _).isInfix
  | unclosed =>
      rw [List.mem_singleton.1 h]
      exact (List.prefix_append _ _).isInfix
  | @unopened piece rest =>
      rw [List.mem_singleton.1 h, List.reverse_cons]
      exact ⟨[], rest, by simp⟩
  | opening _ ih =>
      have hrest := ih h
      rwa [List.reverse_cons, ← List.append_cons] at hrest
  | closing _ ih =>
      have hrest := ih h
      rwa [List.reverse_cons, ← List.append_cons] at hrest
  | @cut piece rest c _ _ _ _ ih =>
      rcases mem_answerPieces_map h with rfl | hlater
      · exact (List.prefix_append _ _).isInfix
      · have hrest : rest <:+ piece.reverse ++ c :: rest :=
          (List.suffix_cons c rest).trans (List.suffix_append _ _)
        exact (ih hlater).trans hrest.isInfix
  | kept _ _ _ ih =>
      have hrest := ih h
      rwa [List.reverse_cons, ← List.append_cons] at hrest

theorem infix_of_mem_answerPieces {cuts : CutRule} {text p : List Char}
    (h : p ∈ answerPieces (pieces cuts text)) : p <:+: text :=
  (passage_piecesFrom cuts 0 [] text).infix_of_mem h

theorem isInfix_trim (text : List Char) : trim text <:+: text := by
  obtain ⟨front, back, -, -, htext⟩ := exists_blanks_around_trim text
  exact ⟨front, back, htext.symm⟩

/-- So is every part that the text is cut into. -/
theorem infix_of_mem_trimmedPieces {cuts : CutRule} {text part : List Char}
    {parts : List (List Char)} (h : trimmedPieces cuts text = .ok parts) (hpart : part ∈ parts) :
    part <:+: text := by
  obtain ⟨ps, hps, rfl⟩ := trimmedPieces_eq_ok h
  obtain ⟨p, hp, rfl⟩ := List.mem_map.1 hpart
  have hmem : p ∈ answerPieces (pieces cuts text) := by
    rw [hps]
    exact hp
  exact (isInfix_trim p).trans (infix_of_mem_answerPieces hmem)

/-- The fragment is a part of the text, and neither begins nor ends with a blank. -/
structure Located (text : List Char) (e : ParseError) : Prop where
  part : e.fragment.toList <:+: text
  trimmed : Trimmed e.fragment.toList

theorem Located.mono {text part : List Char} {e : ParseError} (h : Located part e)
    (hpart : part <:+: text) : Located text e :=
  ⟨h.part.trans hpart, h.trimmed⟩

theorem located_trim (fault : ParseFault) {text part : List Char} (h : part <:+: text) :
    Located text ⟨fault, String.ofList (trim part)⟩ := by
  constructor
  · rw [String.toList_ofList]
    exact (isInfix_trim part).trans h
  · rw [String.toList_ofList]
    exact trimmed_trim part

theorem located_imbalance {cuts : CutRule} {text : List Char} {imbalance : Imbalance}
    (h : pieces cuts text = .error imbalance) : Located text (imbalance.toParseError text) := by
  have hparts : ∀ p ∈ answerPieces (.error imbalance), p <:+: text := by
    intro p hp
    rw [← h] at hp
    exact infix_of_mem_answerPieces hp
  cases imbalance with
  | unopened piece => exact located_trim _ (hparts piece List.mem_cons_self)
  | unclosed piece =>
      rw [Imbalance.toParseError]
      split
      · exact located_trim _ List.infix_rfl
      · exact located_trim _ (hparts piece List.mem_cons_self)

theorem isImbalance_of_readArgument {piece : List Char} {fault : ParseFault}
    (h : readArgument piece = .error fault) : fault.isImbalance = false := by
  unfold readArgument at h
  split at h
  · cases h
    rfl
  · split at h <;> cases h
    rfl

theorem isImbalance_of_readArguments {inner : List Char} {fault : ParseFault}
    (h : readArguments inner = .error fault) : fault.isImbalance = false := by
  unfold readArguments at h
  split at h
  · cases h
  · obtain ⟨piece, -, hpiece⟩ := Fallible.exists_error_of_mapM h
    exact isImbalance_of_readArgument hpiece

theorem isImbalance_of_readArgumentList {rest : List Char} {fault : ParseFault}
    (h : readArgumentList rest = .error fault) : fault.isImbalance = false := by
  cases rest with
  | nil => cases h
  | cons c rest =>
      rw [readArgumentList] at h
      split at h
      · exact isImbalance_of_readArguments h
      · cases h
        rfl

theorem isImbalance_of_literalOf {text : List Char} {fault : ParseFault}
    (h : literalOf text = .error fault) : fault.isImbalance = false := by
  unfold literalOf at h
  dsimp only at h
  split at h
  · cases h
    rfl
  · split at h
    · cases h
      rfl
    · exact isImbalance_of_readArgumentList (Fallible.map_eq_error.1 h)

theorem located_readLiteral {text : List Char} {e : ParseError} (h : readLiteral text = .error e) :
    Located text e ∧ e.fault.isImbalance = false := by
  unfold readLiteral at h
  split at h
  · cases h
  · next fault hfault =>
      cases h
      exact ⟨located_trim fault List.infix_rfl, isImbalance_of_literalOf hfault⟩

theorem balanced_of_mem_trimmedPieces {cuts : CutRule} {text part : List Char}
    {parts : List (List Char)} (h : trimmedPieces cuts text = .ok parts) (hpart : part ∈ parts) :
    Balanced part ∧ Trimmed part := by
  obtain ⟨ps, hps, rfl⟩ := trimmedPieces_eq_ok h
  obtain ⟨p, hp, rfl⟩ := List.mem_map.1 hpart
  exact ⟨(balanced_of_mem_pieces hps hp).trim, trimmed_trim p⟩

/-- In a balanced text only faults of literals are found, or that there are none. -/
theorem located_readClause {text : List Char} {e : ParseError} (hbalanced : Balanced text)
    (htrimmed : Trimmed text) (h : readClause text = .error e) :
    Located text e ∧ e.fault.isImbalance = false := by
  rcases readClause_eq_error.1 h with ⟨-, rfl⟩ | ⟨-, hcut | ⟨parts, hparts, hliterals⟩⟩
  · have hlocated : Located text ⟨.emptyClause, String.ofList (trim text)⟩ :=
      located_trim _ List.infix_rfl
    rw [trim_eq_self htrimmed] at hlocated
    exact ⟨hlocated, rfl⟩
  · obtain ⟨parts, hparts⟩ := (exists_trimmedPieces_iff cutsLiterals).2 hbalanced
    cases hcut.symm.trans hparts
  · obtain ⟨part, hpart, hread⟩ := Fallible.exists_error_of_mapM hliterals
    obtain ⟨hlocated, hfault⟩ := located_readLiteral hread
    exact ⟨hlocated.mono (infix_of_mem_trimmedPieces hparts hpart), hfault⟩

/-- The error of a clause set tells the imbalance of its text, or has another fault. -/
theorem located_readClauseSet {text : List Char} {e : ParseError}
    (h : readClauseSet text = .error e) :
    Located text e ∧ (trimmedPieces cutsClauses text = .error e ∨ e.fault.isImbalance = false) := by
  rcases readClauseSet_eq_error.1 h with ⟨-, rfl⟩ | ⟨-, hcut | ⟨parts, hparts, hclauses⟩⟩
  · exact ⟨located_trim _ List.nil_infix, .inr rfl⟩
  · obtain ⟨imbalance, himbalance, rfl⟩ := trimmedPieces_eq_error.1 hcut
    exact ⟨located_imbalance himbalance, .inl hcut⟩
  · obtain ⟨part, hpart, hread⟩ := Fallible.exists_error_of_mapM hclauses
    obtain ⟨hbalanced, htrimmed⟩ := balanced_of_mem_trimmedPieces hparts hpart
    obtain ⟨hlocated, hfault⟩ := located_readClause hbalanced htrimmed hread
    exact ⟨hlocated.mono (infix_of_mem_trimmedPieces hparts hpart), .inr hfault⟩

/-- A clause set is found to be out of balance exactly if its text is. -/
theorem exists_imbalance_iff {text : List Char} {fault : ParseFault}
    (hfault : fault.isImbalance = true) :
    (∃ e, readClauseSet text = .error e ∧ e.fault = fault) ↔
      ∃ imbalance, pieces cutsClauses text = .error imbalance ∧
        (imbalance.toParseError text).fault = fault := by
  constructor
  · rintro ⟨e, he, rfl⟩
    rcases (located_readClauseSet he).2 with hcut | hother
    · obtain ⟨imbalance, himbalance, rfl⟩ := trimmedPieces_eq_error.1 hcut
      exact ⟨imbalance, himbalance, rfl⟩
    · cases hother.symm.trans hfault
  · rintro ⟨imbalance, himbalance, rfl⟩
    have hcut : trimmedPieces cutsClauses text = .error (imbalance.toParseError text) :=
      trimmedPieces_eq_error.2 ⟨imbalance, himbalance, rfl⟩
    have hblank : allBlank text = false := by
      rw [Bool.eq_false_iff]
      intro hblank
      have hbalanced := balanced_of_forall (isParenthesis_of_allBlank hblank)
      obtain ⟨parts, hparts⟩ := (exists_trimmedPieces_iff cutsClauses).2 hbalanced
      cases hcut.symm.trans hparts
    exact ⟨_, readClauseSet_eq_error.2 (.inr ⟨hblank, .inl hcut⟩), rfl⟩

theorem exists_unopened_iff {text : List Char} :
    (∃ e, readClauseSet text = .error e ∧ e.fault = .unopened) ↔ Overclosed text := by
  rw [exists_imbalance_iff rfl, ← (pieces_answers cutsClauses text).1]
  constructor
  · rintro ⟨imbalance, himbalance, hfault⟩
    cases imbalance with
    | unopened piece => exact ⟨piece, himbalance⟩
    | unclosed piece => cases hfault
  · rintro ⟨piece, hpiece⟩
    exact ⟨.unopened piece, hpiece, rfl⟩

theorem exists_unclosed_iff {text : List Char} :
    (∃ e, readClauseSet text = .error e ∧ e.fault = .unclosed) ↔
      ¬Overclosed text ∧ text.count ')' < text.count '(' := by
  rw [exists_imbalance_iff rfl, ← (pieces_answers cutsClauses text).2.1]
  constructor
  · rintro ⟨imbalance, himbalance, hfault⟩
    cases imbalance with
    | unopened piece => cases hfault
    | unclosed piece => exact ⟨piece, himbalance⟩
  · rintro ⟨piece, hpiece⟩
    exact ⟨.unclosed piece, hpiece, rfl⟩

end ClauseText

/-- Reading a clause set ends with clauses or with a parse error, and then the fragment of the error
is a part of the text without blanks at its ends. The error is of a parenthesis that was not opened
exactly if some part at the front of the text closes more than it opens, and of one that was not
closed exactly if there is no such part and the text opens more than it closes. So a clause text
that was cut off is always cut into literals. -/
theorem parse_errors_located (text : String) :
    ((∃ cs, parseClauses text = .ok cs) ∨
        ∃ e, parseClauses text = .error e ∧ e.fragment.toList <:+: text.toList ∧
          Trimmed e.fragment.toList) ∧
      ((∃ e, parseClauses text = .error e ∧ e.fault.text = "unbalanced ')'") ↔
        Overclosed text.toList) ∧
      ((∃ e, parseClauses text = .error e ∧ e.fault.text = "unbalanced '('") ↔
        ¬Overclosed text.toList ∧ text.toList.count ')' < text.toList.count '(') ∧
      ∀ parts, splitClauses text = .ok parts →
        ∀ part ∈ parts, ∃ literals, splitLiterals part = .ok literals := by
  have hunopened : ∀ fault : ParseFault, fault.text = "unbalanced ')'" ↔ fault = .unopened := by
    intro fault
    cases fault <;> decide
  have hunclosed : ∀ fault : ParseFault, fault.text = "unbalanced '('" ↔ fault = .unclosed := by
    intro fault
    cases fault <;> decide
  simp only [hunopened, hunclosed]
  refine ⟨?_, exists_unopened_iff, exists_unclosed_iff, ?_⟩
  · cases hread : parseClauses text with
    | ok cs => exact .inl ⟨cs, rfl⟩
    | error e =>
        have hlocated := (located_readClauseSet hread).1
        exact .inr ⟨e, rfl, hlocated.part, hlocated.trimmed⟩
  · intro parts hparts part hpart
    obtain ⟨texts, htexts, rfl⟩ := Fallible.map_eq_ok.1 hparts
    obtain ⟨clause, hclause, rfl⟩ := List.mem_map.1 hpart
    obtain ⟨literals, hliterals⟩ := (exists_trimmedPieces_iff cutsLiterals).2
      (balanced_of_mem_trimmedPieces htexts hclause).1
    rw [splitLiterals, String.toList_ofList, hliterals]
    exact ⟨_, rfl⟩

/-- The first text opens more than it closes, but closes too early. -/
theorem parse_errors_located_closed_early :
    let text := "P, (a)) V (("
    Overclosed text.toList ∧ text.toList.count ')' < text.toList.count '(' ∧
      (∃ e, parseClauses text = .error e ∧ e.fault.text = "unbalanced ')'") ∧
      splitClauses "P(a, V) V Q, R" = .ok ["P(a, V) V Q", "R"] ∧
      ∃ literals, splitLiterals "P(a, V) V Q" = .ok literals := by
  intro text
  have hover : Overclosed text.toList := ⟨"P, (a))".toList, by decide +kernel, by decide +kernel⟩
  have hcount : text.toList.count ')' < text.toList.count '(' := by decide +kernel
  have hparts : splitClauses "P(a, V) V Q, R" = .ok ["P(a, V) V Q", "R"] := by decide +kernel
  obtain ⟨-, hunopened, -, -⟩ := parse_errors_located text
  obtain ⟨-, -, -, hliterals⟩ := parse_errors_located "P(a, V) V Q, R"
  exact ⟨hover, hcount, hunopened.2 hover, hparts, hliterals _ hparts _ List.mem_cons_self⟩

end Resolution
