import Resolution.Proofs.Cutting

/-!
# What reading a clause text yields

A text without cuts is still one piece, so no clause that is read lacks literals.
-/

namespace Resolution.ClauseText

theorem piecesFrom_ne_nil {cuts : CutRule} {depth : Nat} {piece text : List Char}
    {ps : List (List Char)} (h : piecesFrom cuts depth piece text = .ok ps) : ps ≠ [] := by
  have hpassage := passage_piecesFrom cuts depth piece text
  generalize piecesFrom cuts depth piece text = answer at h hpassage
  induction hpassage generalizing ps with
  | ends => simp [← Except.ok.inj h]
  | unclosed => cases h
  | unopened => cases h
  | opening _ ih => exact ih h
  | closing _ ih => exact ih h
  | cut =>
      obtain ⟨qs, -, rfl⟩ := Fallible.map_eq_ok.1 h
      exact List.cons_ne_nil _ _
  | kept _ _ _ ih => exact ih h

theorem trimmedPieces_eq_ok {cuts : CutRule} {text : List Char} {parts : List (List Char)}
    (h : trimmedPieces cuts text = .ok parts) :
    ∃ ps, pieces cuts text = .ok ps ∧ parts = ps.map Text.trim := by
  unfold trimmedPieces at h
  split at h
  · next ps hps => exact ⟨ps, hps, (Except.ok.inj h).symm⟩
  · cases h

theorem trimmedPieces_ne_nil {cuts : CutRule} {text : List Char} {parts : List (List Char)}
    (h : trimmedPieces cuts text = .ok parts) : parts ≠ [] := by
  obtain ⟨ps, hps, rfl⟩ := trimmedPieces_eq_ok h
  simpa using piecesFrom_ne_nil hps

theorem readClause_eq_ok {text : List Char} {c : Clause} :
    readClause text = .ok c ↔ Text.allBlank text = false ∧
      ∃ parts, trimmedPieces cutsLiterals text = .ok parts ∧
        parts.mapM readLiteral = .ok c.literals := by
  unfold readClause
  cases hblank : Text.allBlank text with
  | true => simp
  | false =>
      simp only [Bool.false_eq_true, if_false, true_and, Fallible.bind_eq_ok]
      refine exists_congr fun parts => and_congr_right fun _ => ?_
      constructor
      · rintro ⟨literals, hliterals, h⟩
        rwa [← Except.ok.inj h]
      · intro h
        exact ⟨c.literals, h, rfl⟩

theorem readClauseSet_eq_ok {text : List Char} {cs : List Clause} :
    readClauseSet text = .ok cs ↔ Text.allBlank text = false ∧
      ∃ parts, trimmedPieces cutsClauses text = .ok parts ∧ parts.mapM readClause = .ok cs := by
  unfold readClauseSet
  cases hblank : Text.allBlank text with
  | true => simp
  | false => simp only [Bool.false_eq_true, if_false, true_and, Fallible.bind_eq_ok]

/-- The faults of a clause: it lacks literals, cannot be cut, or has a literal that cannot be
read. -/
theorem readClause_eq_error {text : List Char} {e : ParseError} :
    readClause text = .error e ↔
      Text.allBlank text = true ∧ e = ⟨.emptyClause, String.ofList text⟩ ∨
      Text.allBlank text = false ∧ (trimmedPieces cutsLiterals text = .error e ∨
        ∃ parts, trimmedPieces cutsLiterals text = .ok parts ∧
          parts.mapM readLiteral = .error e) := by
  unfold readClause
  cases hblank : Text.allBlank text with
  | true => simp [eq_comm]
  | false =>
      simp only [Bool.false_eq_true, if_false, false_and, false_or, true_and,
        Fallible.bind_eq_error]
      refine or_congr_right (exists_congr fun parts => and_congr_right fun _ => ?_)
      simp [pure, Except.pure]

theorem readClauseSet_eq_error {text : List Char} {e : ParseError} :
    readClauseSet text = .error e ↔
      Text.allBlank text = true ∧ e = ⟨.noClauses, ""⟩ ∨
      Text.allBlank text = false ∧ (trimmedPieces cutsClauses text = .error e ∨
        ∃ parts, trimmedPieces cutsClauses text = .ok parts ∧
          parts.mapM readClause = .error e) := by
  unfold readClauseSet
  cases hblank : Text.allBlank text with
  | true => simp [eq_comm]
  | false =>
      simp only [Bool.false_eq_true, if_false, false_and, false_or, true_and,
        Fallible.bind_eq_error]

theorem trimmedPieces_eq_error {cuts : CutRule} {text : List Char} {e : ParseError} :
    trimmedPieces cuts text = .error e ↔
      ∃ imbalance, pieces cuts text = .error imbalance ∧ e = imbalance.toParseError text := by
  unfold trimmedPieces
  cases pieces cuts text with
  | ok raw => simp
  | error imbalance => simp [eq_comm]

theorem isEmpty_readClause {text : List Char} {c : Clause} (h : readClause text = .ok c) :
    c.isEmpty = false := by
  obtain ⟨-, parts, hparts, hliterals⟩ := readClause_eq_ok.1 h
  have hlength := (Fallible.mapM_eq_ok.1 hliterals).length_eq
  rw [Clause.isEmpty, List.isEmpty_eq_false_iff]
  intro hnil
  rw [hnil] at hlength
  exact trimmedPieces_ne_nil hparts (List.eq_nil_of_length_eq_zero hlength)

end Resolution.ClauseText

namespace Resolution

theorem isEmpty_of_parseClauses {text : String} {cs : List Clause}
    (h : parseClauses text = .ok cs) : ∀ c ∈ cs, c.isEmpty = false := by
  obtain ⟨-, parts, -, h⟩ := ClauseText.readClauseSet_eq_ok.1 h
  intro c hc
  obtain ⟨part, -, hpart⟩ := Fallible.exists_of_mem_mapM h hc
  exact ClauseText.isEmpty_readClause hpart

end Resolution
