import Resolution.Proofs.Growth
import Resolution.Proofs.Printing
import Resolution.Proofs.Reading

/-!
# What is stored can be read back

The reader yields only literals that can be printed: a name ends before the first parenthesis, and
up to there a piece of a clause holds no disjunction sign, since it would have been cut. Resolution
invents no names, so whatever a search from a text stores can be printed and read again. Only the
empty clause cannot, whose name is read as a predicate.
-/

namespace Resolution

open Text ClauseText

namespace ClauseText

/-- No disjunction sign stands in front of the first parenthesis. -/
def Undivided (text : List Char) : Prop :=
  ∀ front, front <+: text → (∀ c ∈ front, isParenthesis c = false) → '∨' ∉ front

theorem Undivided.concat {text : List Char} {c : Char} (h : Undivided text)
    (hc : (∀ d ∈ text, isParenthesis d = false) → isParenthesis c = false → c ≠ '∨') :
    Undivided (text ++ [c]) := by
  intro front hfront hplain
  rcases List.prefix_concat_iff.1 hfront with rfl | hfront
  · have htext : ∀ d ∈ text, isParenthesis d = false :=
      fun d hd => hplain d (List.mem_append_left _ hd)
    have hor := hc htext (hplain c (by simp))
    simp only [List.mem_append, List.mem_singleton, not_or]
    exact ⟨h text List.prefix_rfl htext, fun e => hor e.symm⟩
  · exact h front hfront hplain

/-- Where a parenthesis is open the piece holds it, so the text in front of the first parenthesis
grows only outside parentheses, where the sign cuts. -/
theorem undivided_of_mem_pieces {text : List Char} {ps : List (List Char)}
    (h : pieces cutsLiterals text = .ok ps) {p : List Char} (hp : p ∈ ps) : Undivided p := by
  have hinv := piecesFrom_preserves
    (P := fun depth piece => Undivided piece.reverse ∧
      (depth ≠ 0 → ∃ c ∈ piece, isParenthesis c = true)) ?_ ?_ ?_ ?_ ?_ h p hp
  · rw [List.reverse_reverse] at hinv
    exact hinv.1
  · refine ⟨fun front hfront _ => ?_, fun hzero => absurd rfl hzero⟩
    simp [List.prefix_nil.1 hfront]
  · rintro depth piece ⟨hpiece, -⟩
    rw [List.reverse_cons]
    exact ⟨hpiece.concat fun _ hc => absurd hc (by decide), fun _ => ⟨'(', by simp, by decide⟩⟩
  · rintro depth piece ⟨hpiece, -⟩
    rw [List.reverse_cons]
    exact ⟨hpiece.concat fun _ hc => absurd hc (by decide), fun _ => ⟨')', by simp, by decide⟩⟩
  · rintro depth piece c rest - hkeep ⟨hpiece, hopen⟩
    rw [List.reverse_cons]
    refine ⟨hpiece.concat fun hplain _ hor => ?_, fun hdepth => ?_⟩
    · by_cases hdepth : depth = 0
      · have hcut := hkeep hdepth
        simp [cutsLiterals, hor] at hcut
      · obtain ⟨d, hd, hparenthesis⟩ := hopen hdepth
        exact absurd (hplain d (List.mem_reverse.2 hd)) (by simp [hparenthesis])
    · obtain ⟨d, hd, hparenthesis⟩ := hopen hdepth
      exact ⟨d, List.mem_cons_of_mem c hd, hparenthesis⟩
  · refine ⟨fun front hfront _ => ?_, fun hzero => absurd rfl hzero⟩
    simp [List.prefix_nil.1 hfront]

theorem Undivided.trim {text : List Char} (h : Undivided text) : Undivided (trim text) := by
  obtain ⟨lead, back, hlead, -, htext⟩ := exists_blanks_around_trim text
  intro front hfront hplain hor
  have hprefix : lead ++ front <+: text := by
    rw [htext, List.append_assoc]
    exact (List.prefix_append_right_inj lead).2 (hfront.trans (List.prefix_append _ _))
  refine h (lead ++ front) hprefix (fun c hc => ?_) (List.mem_append_right _ hor)
  rcases List.mem_append.1 hc with hc | hc
  · exact isParenthesis_of_isBlank (List.all_eq_true.1 hlead c hc)
  · exact hplain c hc

theorem not_mem_of_mem_splitOn {mark : Char} {text piece : List Char}
    (h : piece ∈ text.splitOn mark) : mark ∉ piece := by
  induction text generalizing piece with
  | nil =>
      rw [List.splitOn_nil, List.mem_singleton] at h
      simp [h]
  | cons c text ih =>
      rw [List.splitOn_cons_eq_if_modifyHead] at h
      split at h
      · rcases List.mem_cons.1 h with rfl | h
        · simp
        · exact ih h
      · next hc =>
          obtain ⟨first, rest, hsplit⟩ := List.exists_cons_of_ne_nil (List.splitOn_ne_nil mark text)
          rw [hsplit, List.modifyHead_cons, List.mem_cons] at h
          rcases h with rfl | h
          · have hne : mark ≠ c := fun e => hc (by simp [e])
            rw [List.mem_cons, not_or]
            exact ⟨hne, ih (by simp [hsplit])⟩
          · exact ih (by simp [hsplit, h])

theorem mem_of_mem_trim {text : List Char} {c : Char} (h : c ∈ trim text) : c ∈ text := by
  obtain ⟨front, back, -, -, htext⟩ := exists_blanks_around_trim text
  rw [htext, List.mem_append, List.mem_append]
  exact .inl (.inr h)

theorem trim_ne_nil {text : List Char} (h : allBlank text = false) : trim text ≠ [] := by
  obtain ⟨front, back, hfront, hback, htext⟩ := exists_blanks_around_trim text
  intro hnil
  rw [htext, hnil, List.append_nil, allBlank_append, hfront, hback] at h
  cases h

theorem ofName_eq_var_iff (name : String) :
    Term.ofName name = .var name ↔ name ∈ Term.variableNames := by
  unfold Term.ofName
  split
  · next h => simp [h]
  · next h => simp [h]

theorem wellFormed_of_readArgument {piece : List Char} {t : Term} (hcomma : ',' ∉ piece)
    (h : readArgument piece = .ok t) : t.WellFormed := by
  unfold readArgument at h
  split at h
  · cases h
  next hblank =>
  split at h
  · cases h
  next hplain =>
  obtain rfl := Except.ok.inj h
  simp only [Bool.not_eq_true, List.any_eq_false] at hblank hplain
  have hname : (Term.ofName (String.ofList (trim piece))).name.toList = trim piece := by
    rw [Term.name_ofName, String.toList_ofList]
  refine ⟨?_, ?_, ?_, ?_⟩
  · intro hnil
    exact trim_ne_nil hblank (by rw [← hname, hnil, String.toList_empty])
  · rw [hname]
    intro c hc
    have hc' := mem_of_mem_trim hc
    obtain ⟨hopening, hclosing⟩ := isParenthesis_eq_false.1 (hplain c hc')
    exact ⟨hopening, hclosing, fun e => hcomma (e ▸ hc')⟩
  · rw [hname]
    exact trimmed_trim piece
  · rw [Term.name_ofName]
    exact ofName_eq_var_iff _

theorem wellFormed_of_readArguments {inner : List Char} {ts : List Term}
    (h : readArguments inner = .ok ts) : ∀ t ∈ ts, t.WellFormed := by
  unfold readArguments at h
  split at h
  · obtain rfl := Except.ok.inj h
    simp
  · intro t ht
    obtain ⟨piece, hpiece, hread⟩ := Fallible.exists_of_mem_mapM h ht
    exact wellFormed_of_readArgument (not_mem_of_mem_splitOn hpiece) hread

theorem wellFormed_of_readArgumentList {text : List Char} {ts : List Term}
    (h : readArgumentList text = .ok ts) : ∀ t ∈ ts, t.WellFormed := by
  unfold readArgumentList at h
  split at h
  · obtain rfl := Except.ok.inj h
    simp
  · split at h
    · exact wellFormed_of_readArguments h
    · cases h

/-- The parts of a literal that was read: signs, a name and what follows the name. -/
theorem literalOf_eq_ok {text : List Char} {l : Literal} (h : literalOf text = .ok l) :
    ∃ signs name rest, text = signs ++ (name ++ rest) ∧
      (∀ c ∈ signs, isNegationMark c = true ∨ isBlank c = true) ∧
      name ≠ [] ∧ name.head?.any isNegationMark = false ∧ (∀ c ∈ name, isNameChar c = true) ∧
      readArgumentList (rest.dropWhile isBlank) = .ok l.args ∧ l.name = String.ofList name ∧
      l.negated = decide (signs.countP isNegationMark % 2 = 1) := by
  unfold literalOf at h
  dsimp only at h
  split at h
  · cases h
  split at h
  · cases h
  next hname =>
  obtain ⟨args, hargs, rfl⟩ := Fallible.map_eq_ok.1 h
  refine ⟨_, _, _, ?_, fun c hc => ?_, by simpa using hname, ?_, fun c hc => ?_, hargs, rfl, rfl⟩
  · rw [List.takeWhile_append_dropWhile, List.takeWhile_append_dropWhile]
  · simpa using List.all_eq_true.1 List.all_takeWhile c hc
  · have hhead := head?_dropWhile_any (fun c => isNegationMark c || isBlank c) text
    revert hname hhead
    cases text.dropWhile (fun c => isNegationMark c || isBlank c) with
    | nil => simp
    | cons c body =>
        intro hname hhead
        simp only [List.head?_cons, Option.any_some, Bool.or_eq_false_iff] at hhead
        cases hc : isNameChar c with
        | false => simp [hc] at hname
        | true => simpa [hc] using hhead.1
  · exact List.all_eq_true.1 List.all_takeWhile c hc

theorem isParenthesis_of_isNegationMark {c : Char} (h : isNegationMark c = true) :
    isParenthesis c = false := by
  simp only [isNegationMark, Bool.or_eq_true, decide_eq_true_eq] at h
  rcases h with rfl | rfl <;> decide

theorem wellFormed_of_literalOf {text : List Char} {l : Literal} (h : literalOf text = .ok l)
    (hundivided : Undivided text) : l.WellFormed := by
  obtain ⟨signs, name, rest, htext, hsigns, hne, hmark, hword, hargs, hname, -⟩ :=
    literalOf_eq_ok h
  have hlist : l.name.toList = name := by rw [hname, String.toList_ofList]
  have hchar : ∀ c ∈ name, isParenthesis c = false ∧ c ≠ ',' ∧ isBlank c = false := by
    intro c hc
    simpa [isNameChar, and_assoc] using hword c hc
  have hor : '∨' ∉ signs ++ name := by
    refine hundivided (signs ++ name) ⟨rest, by rw [htext, List.append_assoc]⟩ fun c hc => ?_
    rcases List.mem_append.1 hc with hc | hc
    · rcases hsigns c hc with hc | hc
      · exact isParenthesis_of_isNegationMark hc
      · exact isParenthesis_of_isBlank hc
    · exact (hchar c hc).1
  refine ⟨?_, ?_, ?_, wellFormed_of_readArgumentList hargs⟩
  · intro hnil
    exact hne (by rw [← hlist, hnil, String.toList_empty])
  · rw [hlist]
    intro c hc
    obtain ⟨hparenthesis, hcomma, hblank⟩ := hchar c hc
    obtain ⟨hopening, hclosing⟩ := isParenthesis_eq_false.1 hparenthesis
    exact ⟨hopening, hclosing, hcomma, fun e => hor (List.mem_append_right _ (e ▸ hc)), hblank⟩
  · rwa [hlist]

theorem wellFormed_of_readClause {text : List Char} {c : Clause} (h : readClause text = .ok c) :
    ∀ l ∈ c.literals, l.WellFormed := by
  obtain ⟨-, parts, hparts, hliterals⟩ := readClause_eq_ok.1 h
  intro l hl
  obtain ⟨part, hpart, hread⟩ := Fallible.exists_of_mem_mapM hliterals hl
  obtain ⟨ps, hps, rfl⟩ := trimmedPieces_eq_ok hparts
  obtain ⟨p, hp, rfl⟩ := List.mem_map.1 hpart
  rw [readLiteral, trim_eq_self (trimmed_trim p)] at hread
  split at hread
  · next l' hl' =>
      obtain rfl := Except.ok.inj hread
      exact wellFormed_of_literalOf hl' (undivided_of_mem_pieces hps hp).trim
  · cases hread

end ClauseText

/-- Every literal of a clause set that was read can be printed. -/
theorem wellFormed_of_parseClauses {text : String} {cs : List Clause}
    (h : parseClauses text = .ok cs) : ∀ c ∈ cs, ∀ l ∈ c.literals, l.WellFormed := by
  obtain ⟨-, parts, -, h⟩ := readClauseSet_eq_ok.1 h
  intro c hc
  obtain ⟨part, -, hpart⟩ := Fallible.exists_of_mem_mapM h hc
  exact wellFormed_of_readClause hpart

theorem ne_nil_of_parseClauses {text : String} {cs : List Clause}
    (h : parseClauses text = .ok cs) : cs ≠ [] := by
  obtain ⟨-, parts, hparts, h⟩ := readClauseSet_eq_ok.1 h
  have hlength := (Fallible.mapM_eq_ok.1 h).length_eq
  intro hnil
  rw [hnil, List.length_nil] at hlength
  exact trimmedPieces_ne_nil hparts (List.eq_nil_of_length_eq_zero hlength)

namespace Clause.WellFormed

variable {c : Clause} (h : c.WellFormed)

include h

theorem parse_name : Clause.parse c.name = .ok c := readClause_name h.nonempty h.literals

theorem parseClauses_name : parseClauses c.name = .ok [c] := by
  have hsingle := parseClauses_names (List.cons_ne_nil c [])
    fun d hd => List.mem_singleton.1 hd ▸ h
  rwa [List.map_singleton, String.intercalate_singleton] at hsingle

end Clause.WellFormed

/-- The clause of one predicate that has the name of the empty clause. -/
def squareClause : Clause := ⟨[{ name := "□" }]⟩

theorem parse_square : Clause.parse "□" = .ok squareClause := by decide +kernel

theorem Clause.WellFormed.eq_square {c : Clause} (h : c.WellFormed) (hname : c.name = "□") :
    c = squareClause := by
  have hread := h.parse_name
  rw [hname, parse_square] at hread
  exact (Except.ok.inj hread).symm

/-- A name tells its clause, unless it is that of the empty clause. -/
theorem Clause.eq_of_name_eq {c d : Clause} (hc : c.literals ≠ [] → c.WellFormed)
    (hd : d.literals ≠ [] → d.WellFormed) (hname : c.name = d.name) :
    c = d ∨ c = ⟨[]⟩ ∧ d = squareClause ∨ c = squareClause ∧ d = ⟨[]⟩ := by
  obtain ⟨ls⟩ := c
  obtain ⟨ms⟩ := d
  cases ls with
  | nil =>
      cases ms with
      | nil => exact .inl rfl
      | cons m ms => exact .inr (.inl ⟨rfl, (hd (List.cons_ne_nil m ms)).eq_square hname.symm⟩)
  | cons l ls =>
      have hl := hc (List.cons_ne_nil l ls)
      cases ms with
      | nil => exact .inr (.inr ⟨hl.eq_square hname, rfl⟩)
      | cons m ms =>
          have hread := hl.parse_name
          rw [hname, (hd (List.cons_ne_nil m ms)).parse_name] at hread
          exact .inl (Except.ok.inj hread).symm

/-- A literal over the symbols and terms of clauses that can be printed can be printed. -/
theorem Literal.Over.wellFormed {cs : List Clause} {l : Literal} (hl : l.Over cs)
    (h : ∀ c ∈ cs, ∀ k ∈ c.literals, k.WellFormed) : l.WellFormed := by
  obtain ⟨c, hc, k, hk, hname, -⟩ := mem_symbols.1 hl.1
  have hwf := h c hc k hk
  refine ⟨hname ▸ hwf.nonempty, hname ▸ hwf.plain, hname ▸ hwf.unmarked, fun t ht => ?_⟩
  obtain ⟨d, hd, m, hm, htm⟩ := mem_terms.1 (hl.2 t ht)
  exact (h d hd m hm).args t htm

theorem Growth.wellFormed {cs : List Clause} {steps : List Step} (h : Growth cs steps)
    (hcs : ∀ c ∈ cs, ∀ l ∈ c.literals, l.WellFormed) :
    ∀ c ∈ cs ++ steps.map Step.resolvent, ∀ l ∈ c.literals, l.WellFormed :=
  fun _ hc _ hl => (h.literal_over hc hl).wellFormed hcs

theorem ProofState.GrownFrom.wellFormed {input : List Clause} {s : ProofState}
    (h : s.GrownFrom input) (hinput : ∀ c ∈ input, ∀ l ∈ c.literals, l.WellFormed) {c : Clause}
    (hc : c ∈ s.clauses) (hne : c.literals ≠ []) : c.WellFormed := by
  rw [h.clauses] at hc
  exact ⟨hne, h.growth.wellFormed hinput c hc⟩

/-- Whatever calls follow on reading a text, every clause stored that has a literal is read back
from its name, alone and as a clause set. So clauses of the same name are equal, except that the
empty clause is named like a predicate that may be among the clauses. The clauses of the text are
read back from their names together. -/
theorem stored_clauses_read_back {text : String} {cs : List Clause}
    (hparse : parseClauses text = .ok cs) (calls : List Call) :
    let s := (ProofState.ofClauses cs).after calls
    (∀ c ∈ s.clauses, c.isEmpty = false →
      Clause.parse c.name = .ok c ∧ parseClauses c.name = .ok [c]) ∧
    (∀ c ∈ s.clauses, ∀ d ∈ s.clauses, c.name = d.name →
      c = d ∨ c = ⟨[]⟩ ∧ d = squareClause ∨ c = squareClause ∧ d = ⟨[]⟩) ∧
    parseClauses (", ".intercalate (cs.map Clause.name)) = .ok cs := by
  intro s
  have hcs := wellFormed_of_parseClauses hparse
  have hgrown : s.GrownFrom cs := (ProofState.grownFrom_ofClauses cs).after calls
  refine ⟨fun c hc hne => ?_, fun c hc d hd hname => ?_, ?_⟩
  · have hwf := hgrown.wellFormed hcs hc (List.isEmpty_eq_false_iff.1 hne)
    exact ⟨hwf.parse_name, hwf.parseClauses_name⟩
  · exact Clause.eq_of_name_eq (hgrown.wellFormed hcs hc) (hgrown.wellFormed hcs hd) hname
  · refine Clause.parseClauses_names (ne_nil_of_parseClauses hparse) fun c hc => ?_
    exact ⟨List.isEmpty_eq_false_iff.1 (isEmpty_of_parseClauses hparse c hc), hcs c hc⟩

/-- The resolvent of this text has a name in which `V` and the sign stand where nothing is cut. -/
theorem stored_clauses_read_back_resolvent :
    ∃ cs c, parseClauses "¬Q(a), Victory(V ∨ x, y) V Q(y)" = .ok cs ∧
      c ∈ ((ProofState.ofClauses cs).after [.pass]).clauses.drop 2 ∧
      c.name = "Victory(V ∨ x, a)" ∧ Clause.parse c.name = .ok c ∧ parseClauses c.name = .ok [c] ∧
      parseClauses (", ".intercalate (cs.map Clause.name)) = .ok cs := by
  obtain ⟨cs, hcs⟩ : ∃ cs : List Clause, cs =
      [⟨[⟨"Q", [.const "a"], true⟩]⟩,
        ⟨[⟨"Victory", [.const "V ∨ x", .var "y"], false⟩, ⟨"Q", [.var "y"], false⟩]⟩] := ⟨_, rfl⟩
  have hparse : parseClauses "¬Q(a), Victory(V ∨ x, y) V Q(y)" = .ok cs := by
    rw [hcs]
    decide +kernel
  obtain ⟨c, hc⟩ : ∃ c : Clause, c = ⟨[⟨"Victory", [.const "V ∨ x", .const "a"], false⟩]⟩ :=
    ⟨_, rfl⟩
  have hmem : c ∈ ((ProofState.ofClauses cs).after [.pass]).clauses.drop 2 := by
    rw [hcs, hc]
    decide +kernel
  have hname : c.name = "Victory(V ∨ x, a)" ∧ c.isEmpty = false := by
    rw [hc]
    decide +kernel
  obtain ⟨hread, -, htogether⟩ := stored_clauses_read_back hparse [.pass]
  obtain ⟨halone, hset⟩ := hread c (List.mem_of_mem_drop hmem) hname.2
  exact ⟨cs, c, hparse, hmem, hname.1, halone, hset, htogether⟩

/-- The text holds a predicate with the name of the empty clause, and the search derives the empty
clause: two clauses of the same name that are not equal. -/
theorem stored_clauses_same_name :
    ∃ cs, parseClauses "□, P, ¬P" = .ok cs ∧
      ∃ c ∈ ((ProofState.ofClauses cs).after [.run none]).clauses,
        ∃ d ∈ ((ProofState.ofClauses cs).after [.run none]).clauses, c.name = d.name ∧ c ≠ d := by
  obtain ⟨cs, hcs⟩ : ∃ cs : List Clause, cs =
      [squareClause, ⟨[⟨"P", [], false⟩]⟩, ⟨[⟨"P", [], true⟩]⟩] := ⟨_, rfl⟩
  have hparse : parseClauses "□, P, ¬P" = .ok cs := by
    rw [hcs]
    decide +kernel
  have hrun : (ProofState.ofClauses cs).after [.run none] =
      (ProofState.ofClauses cs).pass.state := by
    change ((ProofState.ofClauses cs).run none).state = _
    rw [hcs, ProofState.run_of_running rfl rfl, ProofState.run_of_halted none (by decide +kernel)]
  have hclauses : (ProofState.ofClauses cs).pass.state.clauses =
      [squareClause, ⟨[⟨"P", [], false⟩]⟩, ⟨[⟨"P", [], true⟩]⟩, ⟨[]⟩] := by
    rw [hcs]
    decide +kernel
  refine ⟨cs, hparse, squareClause, ?_, ⟨[]⟩, ?_, rfl, by decide⟩ <;>
    rw [hrun, hclauses] <;> simp

end Resolution
