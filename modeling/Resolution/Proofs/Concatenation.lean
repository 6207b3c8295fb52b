import Resolution.Proofs.Cutting
import Resolution.Proofs.Reading

/-!
# Texts put together

Whether a `V` cuts depends on its neighbours and on the piece so far, and the end of the text counts
as a blank. So a text may be cut in another way once something follows it. That happens only at its
last character, and then the text ends with an empty piece, which is not a literal. Texts that can
be read are therefore cut as before when they are joined by a separator, and are read one after the
other.
-/

namespace Resolution

open Text ClauseText

namespace ClauseText

variable {cuts : CutRule}

/-- The rule looks no further than the next character, and cuts at the end of a text whatever it
would cut if the text went on. -/
structure Stable (cuts : CutRule) : Prop where
  inside : ∀ piece c next rest more,
    cuts piece c (next :: rest ++ more) = cuts piece c (next :: rest)
  ending : ∀ piece c more, cuts piece c [] = false → cuts piece c more = false

theorem stable_cutsClauses : Stable cutsClauses := ⟨fun _ _ _ _ _ => rfl, fun _ _ _ h => h⟩

theorem stable_cutsLiterals : Stable cutsLiterals where
  inside _ _ _ _ _ := rfl
  ending piece c more h := by
    simp only [cutsLiterals, Bool.and_true, Bool.or_eq_false_iff] at h ⊢
    exact ⟨h.1, by rw [h.2, Bool.false_and]⟩

theorem Stable.keeps (hcuts : Stable cuts) {piece rest : List Char} {c : Char} (more : List Char)
    (h : cuts piece c rest = false) : cuts piece c (rest ++ more) = false := by
  cases rest with
  | nil => exact hcuts.ending piece c more h
  | cons next rest => rwa [hcuts.inside]

/-- Text that follows continues the last piece, unless this is empty, as it is behind a cut at the
end of the text. -/
theorem piecesFrom_append (hcuts : Stable cuts) {depth : Nat} {piece text last : List Char}
    {ps : List (List Char)} (hlast : last ≠ [])
    (h : piecesFrom cuts depth piece text = .ok (ps ++ [last])) (more : List Char) :
    piecesFrom cuts depth piece (text ++ more) =
      (piecesFrom cuts 0 last.reverse more).map (ps ++ ·) := by
  have hpassage := passage_piecesFrom cuts depth piece text
  generalize piecesFrom cuts depth piece text = answer at h hpassage
  induction hpassage generalizing ps with
  | @ends piece =>
      have hpiece : [] ++ [piece.reverse] = ps ++ [last] := Except.ok.inj h
      obtain ⟨rfl, rfl⟩ := List.append_singleton_inj.1 hpiece
      rw [List.nil_append, List.reverse_reverse]
      cases piecesFrom cuts 0 piece more <;> rfl
  | unclosed => cases h
  | unopened => cases h
  | opening _ ih =>
      rw [List.cons_append, piecesFrom_opening]
      exact ih h
  | closing _ ih =>
      rw [List.cons_append, piecesFrom_closing]
      exact ih h
  | @cut piece rest c _ hc hcut hrest ih =>
      obtain ⟨qs, hqs, hps⟩ := Fallible.map_eq_ok.1 h
      cases ps with
      | nil => exact absurd (List.cons.inj hps).2 (piecesFrom_ne_nil (hrest.answer_eq.trans hqs))
      | cons p ps =>
          obtain ⟨rfl, rfl⟩ := List.cons.inj hps
          have hcut' : cuts piece c (rest ++ more) = true := by
            cases rest with
            | nil =>
                cases hrest with
                | ends =>
                    have hnil : [] ++ [[]] = ps ++ [last] := Except.ok.inj hqs
                    exact absurd (List.append_singleton_inj.1 hnil).2.symm hlast
            | cons next rest => rwa [hcuts.inside]
          rw [List.cons_append, piecesFrom_cut hc hcut', ih hqs]
          cases piecesFrom cuts 0 last.reverse more <;> rfl
  | kept hc hkeep _ ih =>
      rw [List.cons_append, piecesFrom_kept hc fun hdepth => hcuts.keeps more (hkeep hdepth)]
      exact ih h

/-- Characters in front of a text that the rule does not look at go into the first piece. -/
theorem piecesFrom_behind {front : List Char}
    (hcuts : ∀ piece c rest, cuts (piece ++ front) c rest = cuts piece c rest) {depth : Nat}
    {piece text p : List Char} {ps : List (List Char)}
    (h : piecesFrom cuts depth piece text = .ok (p :: ps)) :
    piecesFrom cuts depth (piece ++ front) text = .ok ((front.reverse ++ p) :: ps) := by
  have hpassage := passage_piecesFrom cuts depth piece text
  generalize piecesFrom cuts depth piece text = answer at h hpassage
  induction hpassage generalizing p ps with
  | ends =>
      obtain ⟨rfl, rfl⟩ := List.cons.inj (Except.ok.inj h)
      rw [piecesFrom, List.reverse_append]
  | unclosed => cases h
  | unopened => cases h
  | opening _ ih =>
      rw [piecesFrom_opening]
      exact ih h
  | closing _ ih =>
      rw [piecesFrom_closing]
      exact ih h
  | cut hc hcut hrest ih =>
      obtain ⟨qs, hqs, hps⟩ := Fallible.map_eq_ok.1 h
      obtain ⟨rfl, rfl⟩ := List.cons.inj hps
      rw [piecesFrom_cut hc (by rwa [hcuts]), hrest.answer_eq, hqs, List.reverse_append]
      rfl
  | @kept depth piece rest c _ hc hkeep _ ih =>
      have hkeep' : depth = 0 → cuts (piece ++ front) c rest = false := by
        intro hdepth
        rw [hcuts]
        exact hkeep hdepth
      rw [piecesFrom_kept hc hkeep']
      exact ih h

theorem cutsLiterals_behind_blanks (front : List Char) (hfront : allBlank front = true)
    (piece : List Char) (c : Char) (rest : List Char) :
    cutsLiterals (piece ++ front) c rest = cutsLiterals piece c rest := by
  cases piece with
  | nil =>
      have hnil : allBlank [] = true := rfl
      simp [cutsLiterals, hfront, hnil]
  | cons previous piece =>
      have hblank : allBlank (previous :: piece ++ front) = allBlank (previous :: piece) := by
        rw [allBlank_append, hfront, Bool.and_true]
      unfold cutsLiterals
      dsimp only
      rw [hblank]
      rfl

/-- Behind a piece that is not blank the separator ends the piece, and only blanks of it go into the
pieces on both sides. -/
def Separates (cuts : CutRule) (sep : List Char) : Prop :=
  ∀ piece, allBlank piece = false → ∀ text p ps, piecesFrom cuts 0 [] text = .ok (p :: ps) →
    ∃ back front, allBlank back = true ∧ allBlank front = true ∧
      piecesFrom cuts 0 piece (sep ++ text) = .ok ((piece.reverse ++ back) :: (front ++ p) :: ps)

theorem separates_of_mark {mark : Char} (hmark : isParenthesis mark = false)
    (hcuts : ∀ piece rest, cuts piece mark rest = true) : Separates cuts [mark] := by
  intro piece _ text p ps h
  refine ⟨[], [], rfl, rfl, ?_⟩
  rw [List.singleton_append, piecesFrom_cut hmark (hcuts piece text), h, List.append_nil]
  rfl

/-- The letter between two blanks. -/
theorem separates_letter : Separates cutsLiterals [' ', 'V', ' '] := by
  intro piece hpiece text p ps h
  have hspace : ∀ piece rest, cutsLiterals piece ' ' rest = false :=
    fun _ _ => by simp [cutsLiterals]
  have hletter : cutsLiterals (' ' :: piece) 'V' (' ' :: text) = true := by
    have hblank : isBlank ' ' = true := by decide
    have hnot : allBlank (' ' :: piece) = false := by
      rw [← List.singleton_append, allBlank_append, hpiece, Bool.and_false]
    simp [cutsLiterals, hnot, hblank]
  have hrest : piecesFrom cutsLiterals 0 [' '] text = .ok ((' ' :: p) :: ps) :=
    piecesFrom_behind (cutsLiterals_behind_blanks [' '] (by decide)) h
  refine ⟨[' '], [' '], by decide, by decide, ?_⟩
  change piecesFrom cutsLiterals 0 piece (' ' :: 'V' :: ' ' :: text) = _
  rw [piecesFrom_kept (by decide) fun _ => hspace _ _, piecesFrom_cut (by decide) hletter,
    piecesFrom_kept (by decide) fun _ => hspace _ _, hrest, List.reverse_cons]
  rfl

theorem trimmedPieces_append (hcuts : Stable cuts) {sep : List Char} (hsep : Separates cuts sep)
    {a b : List Char} {as bs : List (List Char)} (ha : trimmedPieces cuts a = .ok as)
    (hb : trimmedPieces cuts b = .ok bs) (hne : ∀ part ∈ as, part ≠ []) :
    trimmedPieces cuts (a ++ (sep ++ b)) = .ok (as ++ bs) := by
  obtain ⟨ps, hps, rfl⟩ := trimmedPieces_eq_ok ha
  obtain ⟨qs, hqs, rfl⟩ := trimmedPieces_eq_ok hb
  obtain ⟨ps, last, rfl⟩ := (List.eq_nil_or_concat' ps).resolve_left (piecesFrom_ne_nil hps)
  obtain ⟨q, qs, rfl⟩ := List.exists_cons_of_ne_nil (piecesFrom_ne_nil hqs)
  have hlast : allBlank last = false := by
    rw [Bool.eq_false_iff]
    intro hblank
    have htrim := trim_blanks_around [] last [] hblank rfl
    rw [List.append_nil, List.append_nil] at htrim
    exact hne (trim last) (by simp) htrim
  have hnil : last ≠ [] := by
    rintro rfl
    cases hlast
  obtain ⟨back, front, hback, hfront, hseam⟩ :=
    hsep last.reverse (by rwa [allBlank, List.all_reverse]) b q qs hqs
  have hpieces :
      pieces cuts (a ++ (sep ++ b)) = .ok (ps ++ (last ++ back) :: (front ++ q) :: qs) := by
    rw [pieces, piecesFrom_append hcuts hnil hps, hseam, List.reverse_reverse]
    rfl
  have htrimLast : trim (last ++ back) = trim last := trim_blanks_around last [] back rfl hback
  have htrimFirst : trim (front ++ q) = trim q := by
    have htrim := trim_blanks_around q front [] hfront rfl
    rwa [List.append_nil] at htrim
  rw [trimmedPieces, hpieces]
  simp [htrimLast, htrimFirst]

theorem readClause_append {sep : List Char} (hsep : Separates cutsLiterals sep) {a b : List Char}
    {c d : Clause} (ha : readClause a = .ok c) (hb : readClause b = .ok d) :
    readClause (a ++ (sep ++ b)) = .ok ⟨c.literals ++ d.literals⟩ := by
  obtain ⟨hblank, as, has, hc⟩ := readClause_eq_ok.1 ha
  obtain ⟨-, bs, hbs, hd⟩ := readClause_eq_ok.1 hb
  have hne : ∀ part ∈ as, part ≠ [] := by
    rintro part hpart rfl
    obtain ⟨l, hl⟩ := Fallible.exists_ok_of_mem_mapM hc hpart
    cases hl
  refine readClause_eq_ok.2 ⟨by rw [allBlank_append, hblank, Bool.false_and], as ++ bs, ?_, ?_⟩
  · exact trimmedPieces_append stable_cutsLiterals hsep has hbs hne
  · exact Fallible.mapM_append hc hd

theorem readClauseSet_append {a b : List Char} {cs ds : List Clause}
    (ha : readClauseSet a = .ok cs) (hb : readClauseSet b = .ok ds) :
    readClauseSet (a ++ ([','] ++ b)) = .ok (cs ++ ds) := by
  obtain ⟨hblank, as, has, hcs⟩ := readClauseSet_eq_ok.1 ha
  obtain ⟨-, bs, hbs, hds⟩ := readClauseSet_eq_ok.1 hb
  have hne : ∀ part ∈ as, part ≠ [] := by
    rintro part hpart rfl
    obtain ⟨c, hc⟩ := Fallible.exists_ok_of_mem_mapM hcs hpart
    cases hc
  have hsep : Separates cutsClauses [','] :=
    separates_of_mark (by decide) fun _ _ => by simp [cutsClauses]
  refine readClauseSet_eq_ok.2 ⟨by rw [allBlank_append, hblank, Bool.false_and], as ++ bs, ?_, ?_⟩
  · exact trimmedPieces_append stable_cutsClauses hsep has hbs hne
  · exact Fallible.mapM_append hcs hds

end ClauseText

/-- Clause sets that can be read, joined by a comma, are read as the clauses of the first followed
by those of the second. Clauses that can be read, joined by either disjunction sign, are read as one
clause with the literals of the first followed by those of the second. -/
theorem parsing_compositional :
    (∀ (a b : String) (cs ds : List Clause), parseClauses a = .ok cs → parseClauses b = .ok ds →
        parseClauses (a ++ "," ++ b) = .ok (cs ++ ds)) ∧
      ∀ (a b : String) (c d : Clause), Clause.parse a = .ok c → Clause.parse b = .ok d →
        ∀ sep ∈ [" V ", "∨"], Clause.parse (a ++ sep ++ b) = .ok ⟨c.literals ++ d.literals⟩ := by
  constructor
  · intro a b cs ds ha hb
    have htext : (a ++ "," ++ b).toList = a.toList ++ ([','] ++ b.toList) := by
      simp [String.toList_append]
    rw [parseClauses, htext]
    exact readClauseSet_append ha hb
  · intro a b c d ha hb sep hsep
    have htext : (a ++ sep ++ b).toList = a.toList ++ (sep.toList ++ b.toList) := by
      simp [String.toList_append]
    have hseparates : Separates cutsLiterals sep.toList := by
      rcases List.mem_pair.1 hsep with rfl | rfl
      · exact separates_letter
      · change Separates cutsLiterals ['∨']
        exact separates_of_mark (by decide) fun _ _ => by simp [cutsLiterals]
    rw [Clause.parse, htext]
    exact readClause_append hseparates ha hb

/-- The first clause ends and the second begins with a predicate that is called `V`. -/
theorem parsing_compositional_letters :
    let c : Clause := ⟨[⟨"P", [], false⟩, ⟨"V", [], false⟩]⟩
    let d : Clause := ⟨[⟨"V", [.var "x"], false⟩, ⟨"V", [], true⟩]⟩
    Clause.parse "P V V" = .ok c ∧ Clause.parse "V(x) V ¬V " = .ok d ∧
      Clause.parse ("P V V" ++ " V " ++ "V(x) V ¬V ") = .ok ⟨c.literals ++ d.literals⟩ ∧
      Clause.parse ("P V V" ++ "∨" ++ "V(x) V ¬V ") = .ok ⟨c.literals ++ d.literals⟩ ∧
      parseClauses ("P V V" ++ "," ++ "V(x) V ¬V ") = .ok ([c] ++ [d]) := by
  intro c d
  have hc : Clause.parse "P V V" = .ok c := by decide +kernel
  have hd : Clause.parse "V(x) V ¬V " = .ok d := by decide +kernel
  have hcs : parseClauses "P V V" = .ok [c] := by decide +kernel
  have hds : parseClauses "V(x) V ¬V " = .ok [d] := by decide +kernel
  have hjoined := parsing_compositional.2 _ _ c d hc hd
  exact ⟨hc, hd, hjoined " V " (by simp), hjoined "∨" (by simp),
    parsing_compositional.1 _ _ [c] [d] hcs hds⟩

end Resolution
