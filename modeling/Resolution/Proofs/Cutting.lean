import Resolution.ClauseText
import Resolution.Proofs.Fallible

/-!
# How a text is cut

The walk that cuts a text looks at one character after another. `Passage` lists what it may do at
each of them, with its answer; what holds of every walk is proved by induction on it. `Uncut` says
that the walk goes over some text without a cut, whatever follows; such texts can be put one behind
the other. So texts that are joined by separators come out of the walk again, trimmed, if the walk
goes over each of them and cuts at the mark of each separator.
-/

namespace Resolution

namespace Text

/-- No blank stands at either end. -/
def Trimmed (text : List Char) : Prop :=
  text.head?.any isBlank = false ∧ text.getLast?.any isBlank = false

instance (text : List Char) : Decidable (Trimmed text) := inferInstanceAs (Decidable (_ ∧ _))

theorem dropWhile_of_head? {p : Char → Bool} {text : List Char}
    (h : text.head?.any p = false) : text.dropWhile p = text := by
  cases text with
  | nil => rfl
  | cons c rest =>
      have hc : p c = false := h
      rw [List.dropWhile_cons, hc]
      rfl

/-- The characters of a class in front of a text that begins with another one. -/
theorem takeWhile_append_of_head? {p : Char → Bool} {a b : List Char} (ha : ∀ c ∈ a, p c = true)
    (hb : b.head?.any p = false) : (a ++ b).takeWhile p = a ∧ (a ++ b).dropWhile p = b := by
  have htake : b.takeWhile p = [] := by
    cases b with
    | nil => rfl
    | cons c rest =>
        have hc : p c = false := hb
        rw [List.takeWhile_cons, hc]
        rfl
  constructor
  · rw [List.takeWhile_append_of_pos ha, htake, List.append_nil]
  · rw [List.dropWhile_append_of_pos ha, dropWhile_of_head? hb]

/-- Trimming takes away the blanks around a trimmed text and nothing more. -/
theorem trim_of_trimmed {text : List Char} (h : Trimmed text) (front back : List Char)
    (hfront : allBlank front = true) (hback : allBlank back = true) :
    trim (front ++ text ++ back) = text := by
  have hfront' : ∀ c ∈ front, isBlank c = true := List.all_eq_true.1 hfront
  have hback' : ∀ c ∈ back.reverse, isBlank c = true :=
    fun c hc => List.all_eq_true.1 hback c (List.mem_reverse.1 hc)
  have hlast : text.reverse.dropWhile isBlank = text.reverse :=
    dropWhile_of_head? (by rw [List.head?_reverse]; exact h.2)
  rw [trim, trimBy, List.append_assoc, List.dropWhile_append_of_pos hfront']
  cases text with
  | nil =>
      rw [List.nil_append, ← List.append_nil back,
        List.dropWhile_append_of_pos (List.all_eq_true.1 hback)]
      rfl
  | cons c rest =>
      have hhead : (c :: rest ++ back).dropWhile isBlank = c :: rest ++ back :=
        dropWhile_of_head? h.1
      rw [hhead, List.reverse_append, List.dropWhile_append_of_pos hback', hlast,
        List.reverse_reverse]

theorem trim_eq_self {text : List Char} (h : Trimmed text) : trim text = text := by
  have htrim := trim_of_trimmed h [] [] rfl rfl
  rwa [List.nil_append, List.append_nil] at htrim

theorem head?_dropWhile_any (p : Char → Bool) (text : List Char) :
    (text.dropWhile p).head?.any p = false := by
  have h := List.head?_dropWhile_not p text
  cases hhead : (text.dropWhile p).head? with
  | none => rfl
  | some c =>
      rw [hhead] at h
      simpa using h

/-- A text is what trimming leaves of it, between blanks. -/
theorem exists_blanks_around_trim (text : List Char) :
    ∃ front back, allBlank front = true ∧ allBlank back = true ∧
      text = front ++ trim text ++ back := by
  refine ⟨text.takeWhile isBlank, ((text.dropWhile isBlank).reverse.takeWhile isBlank).reverse,
    List.all_takeWhile, ?_, ?_⟩
  · rw [allBlank, List.all_reverse]
    exact List.all_takeWhile
  · rw [trim, trimBy, List.append_assoc, ← List.reverse_append, List.takeWhile_append_dropWhile,
      List.reverse_reverse, List.takeWhile_append_dropWhile]

theorem trimmed_trim (text : List Char) : Trimmed (trim text) := by
  have hlast : (trim text).getLast?.any isBlank = false := by
    rw [trim, trimBy, List.getLast?_reverse]
    exact head?_dropWhile_any _ _
  refine ⟨?_, hlast⟩
  have hprefix : trim text <+: text.dropWhile isBlank := by
    have hsuffix := List.dropWhile_suffix isBlank (l := (text.dropWhile isBlank).reverse)
    rwa [← List.reverse_prefix, List.reverse_reverse] at hsuffix
  have hhead := head?_dropWhile_any isBlank text
  obtain ⟨back, hback⟩ := hprefix
  cases htrim : trim text with
  | nil => rfl
  | cons c rest =>
      rw [← hback, htrim] at hhead
      exact hhead

theorem allBlank_append {a b : List Char} : allBlank (a ++ b) = (allBlank a && allBlank b) :=
  List.all_append

/-- Blanks around a text do not matter. -/
theorem trim_blanks_around (text front back : List Char)
    (hfront : allBlank front = true) (hback : allBlank back = true) :
    trim (front ++ text ++ back) = trim text := by
  obtain ⟨lead, tail, hlead, htail, htext⟩ := exists_blanks_around_trim text
  have htrim := trim_of_trimmed (trimmed_trim text) (front ++ lead) (tail ++ back)
    (by rw [allBlank_append, hfront, hlead]; rfl) (by rw [allBlank_append, htail, hback]; rfl)
  conv_lhs => rw [htext]
  simpa only [List.append_assoc] using htrim

theorem trimmed_append {a b : List Char} (ha : a ≠ []) (hb : b ≠ [])
    (hhead : a.head?.any isBlank = false) (hlast : b.getLast?.any isBlank = false) :
    Trimmed (a ++ b) := by
  constructor
  · rwa [List.head?_append_of_ne_nil _ ha]
  · rwa [List.getLast?_append_of_ne_nil _ hb]

/-- Joining texts that begin and end with characters other than blanks gives such a text. -/
theorem trimmed_intercalate {sep : List Char} {texts : List (List Char)} (hne : texts ≠ [])
    (h : ∀ t ∈ texts, t ≠ [] ∧ Trimmed t) :
    sep.intercalate texts ≠ [] ∧ Trimmed (sep.intercalate texts) := by
  induction texts with
  | nil => exact absurd rfl hne
  | cons text texts ih =>
      obtain ⟨htext, hhead, hlast⟩ := h text List.mem_cons_self
      cases texts with
      | nil =>
          rw [List.intercalate_singleton]
          exact ⟨htext, hhead, hlast⟩
      | cons next texts =>
          obtain ⟨hrest, -, hlast'⟩ := ih (by simp) fun t ht => h t (List.mem_cons_of_mem text ht)
          rw [List.intercalate_cons_cons, List.append_assoc]
          refine ⟨by simp [htext], trimmed_append htext (by simp [hrest]) hhead ?_⟩
          rwa [List.getLast?_append_of_ne_nil _ hrest]

/-- What holds of the empty text and of two texts put together holds of joined texts. -/
theorem intercalate_preserves {P : List Char → Prop} (nil : P [])
    (append : ∀ a b, P a → P b → P (a ++ b)) {sep : List Char} {texts : List (List Char)}
    (hsep : P sep) (h : ∀ t ∈ texts, P t) : P (sep.intercalate texts) := by
  induction texts with
  | nil => exact nil
  | cons text texts ih =>
      have htext := h text List.mem_cons_self
      have htexts := ih fun t ht => h t (List.mem_cons_of_mem text ht)
      cases texts with
      | nil =>
          rw [List.intercalate_singleton]
          exact htext
      | cons next texts =>
          rw [List.intercalate_cons_cons]
          exact append _ _ (append _ _ htext hsep) htexts

theorem allBlank_eq_false {text : List Char} (hne : text ≠ []) (h : Trimmed text) :
    allBlank text = false := by
  cases text with
  | nil => exact absurd rfl hne
  | cons c rest =>
      have hc : isBlank c = false := h.1
      rw [allBlank, List.all_cons, hc, Bool.false_and]

end Text

namespace ClauseText

open Text

section

variable {cuts : CutRule} {depth : Nat} {piece rest : List Char} {c : Char}

theorem piecesFrom_opening :
    piecesFrom cuts depth piece ('(' :: rest) =
      piecesFrom cuts (depth + 1) ('(' :: piece) rest := by
  cases depth <;> rw [piecesFrom, if_pos rfl]

theorem piecesFrom_closing :
    piecesFrom cuts (depth + 1) piece (')' :: rest) =
      piecesFrom cuts depth (')' :: piece) rest := by
  rw [piecesFrom, if_neg (by decide), if_pos rfl]

theorem isParenthesis_eq_false : isParenthesis c = false ↔ c ≠ '(' ∧ c ≠ ')' := by
  simp [isParenthesis]

theorem isParenthesis_of_isBlank (h : isBlank c = true) : isParenthesis c = false := by
  rw [isParenthesis_eq_false]
  constructor
  · rintro rfl
    exact absurd h (by decide)
  · rintro rfl
    exact absurd h (by decide)

theorem piecesFrom_kept (hc : isParenthesis c = false)
    (hkeep : depth = 0 → cuts piece c rest = false) :
    piecesFrom cuts depth piece (c :: rest) = piecesFrom cuts depth (c :: piece) rest := by
  obtain ⟨hopening, hclosing⟩ := isParenthesis_eq_false.1 hc
  have hnot : ¬(decide (depth = 0) && cuts piece c rest) = true := by simpa using hkeep
  cases depth <;> rw [piecesFrom, if_neg hopening, if_neg hclosing, if_neg hnot]

theorem piecesFrom_cut (hc : isParenthesis c = false) (hcut : cuts piece c rest = true) :
    piecesFrom cuts 0 piece (c :: rest) = (piecesFrom cuts 0 [] rest).map (piece.reverse :: ·) := by
  obtain ⟨hopening, hclosing⟩ := isParenthesis_eq_false.1 hc
  rw [piecesFrom, if_neg hopening, if_neg hclosing, if_pos (by simpa using hcut)]

end

/-- The steps of the walk, from a depth, a piece and the text ahead to the answer. -/
inductive Passage (cuts : CutRule) :
    Nat → List Char → List Char → Except Imbalance (List (List Char)) → Prop
  | ends {piece : List Char} : Passage cuts 0 piece [] (.ok [piece.reverse])
  | unclosed {outer : Nat} {piece : List Char} :
      Passage cuts (outer + 1) piece [] (.error (.unclosed piece.reverse))
  | unopened {piece rest : List Char} :
      Passage cuts 0 piece (')' :: rest) (.error (.unopened (')' :: piece).reverse))
  | opening {depth : Nat} {piece rest : List Char} {answer : Except Imbalance (List (List Char))} :
      Passage cuts (depth + 1) ('(' :: piece) rest answer →
      Passage cuts depth piece ('(' :: rest) answer
  | closing {outer : Nat} {piece rest : List Char} {answer : Except Imbalance (List (List Char))} :
      Passage cuts outer (')' :: piece) rest answer →
      Passage cuts (outer + 1) piece (')' :: rest) answer
  | cut {piece rest : List Char} {c : Char} {answer : Except Imbalance (List (List Char))} :
      isParenthesis c = false → cuts piece c rest = true → Passage cuts 0 [] rest answer →
      Passage cuts 0 piece (c :: rest) (answer.map (piece.reverse :: ·))
  | kept {depth : Nat} {piece rest : List Char} {c : Char}
      {answer : Except Imbalance (List (List Char))} :
      isParenthesis c = false → (depth = 0 → cuts piece c rest = false) →
      Passage cuts depth (c :: piece) rest answer → Passage cuts depth piece (c :: rest) answer

theorem passage_piecesFrom (cuts : CutRule) (depth : Nat) (piece text : List Char) :
    Passage cuts depth piece text (piecesFrom cuts depth piece text) := by
  fun_induction piecesFrom cuts depth piece text with
  | case1 piece => exact .ends
  | case2 outer piece => exact .unclosed
  | case3 depth piece rest ih => exact .opening ih
  | case4 piece rest => exact .unopened
  | case5 piece rest outer _ ih => exact .closing ih
  | case6 depth piece c rest hopening hclosing hcut ih =>
      simp only [Bool.and_eq_true, decide_eq_true_eq] at hcut
      obtain ⟨rfl, hcut⟩ := hcut
      exact .cut (isParenthesis_eq_false.2 ⟨hopening, hclosing⟩) hcut ih
  | case7 depth piece c rest hopening hclosing hkeep ih =>
      refine .kept (isParenthesis_eq_false.2 ⟨hopening, hclosing⟩) (fun hdepth => ?_) ih
      simpa [hdepth] using hkeep

theorem Passage.answer_eq {cuts : CutRule} {depth : Nat} {piece text : List Char}
    {answer : Except Imbalance (List (List Char))} (h : Passage cuts depth piece text answer) :
    piecesFrom cuts depth piece text = answer := by
  induction h with
  | ends => rfl
  | unclosed => rfl
  | unopened => rfl
  | opening _ ih => rw [piecesFrom_opening, ih]
  | closing _ ih => rw [piecesFrom_closing, ih]
  | cut hc hcut _ ih => rw [piecesFrom_cut hc hcut, ih]
  | kept hc hkeep _ ih => rw [piecesFrom_kept hc hkeep, ih]

/-- What holds of a fresh piece and is kept by every step of the walk that does not cut holds of
every piece. -/
theorem piecesFrom_preserves {cuts : CutRule} {P : Nat → List Char → Prop} (fresh : P 0 [])
    (opening : ∀ depth piece, P depth piece → P (depth + 1) ('(' :: piece))
    (closing : ∀ depth piece, P (depth + 1) piece → P depth (')' :: piece))
    (kept : ∀ depth piece c rest, isParenthesis c = false →
      (depth = 0 → cuts piece c rest = false) → P depth piece → P depth (c :: piece))
    {depth : Nat} {piece text : List Char} {ps : List (List Char)} (start : P depth piece)
    (h : piecesFrom cuts depth piece text = .ok ps) : ∀ p ∈ ps, P 0 p.reverse := by
  have hpassage := passage_piecesFrom cuts depth piece text
  generalize piecesFrom cuts depth piece text = answer at h hpassage
  induction hpassage generalizing ps with
  | ends =>
      intro p hp
      rw [← Except.ok.inj h, List.mem_singleton] at hp
      rwa [hp, List.reverse_reverse]
  | unclosed => cases h
  | unopened => cases h
  | opening _ ih => exact ih (opening _ _ start) h
  | closing _ ih => exact ih (closing _ _ start) h
  | cut _ _ _ ih =>
      obtain ⟨qs, hqs, rfl⟩ := Fallible.map_eq_ok.1 h
      intro p hp
      rcases List.mem_cons.1 hp with rfl | hp
      · rwa [List.reverse_reverse]
      · exact ih fresh hqs p hp
  | kept hc hkeep _ ih => exact ih (kept _ _ _ _ hc hkeep start) h

/-- Outside parentheses and behind the given piece, the walk goes over the text without a cut and is
outside parentheses again. -/
def Uncut (cuts : CutRule) (piece text : List Char) : Prop :=
  ∀ rest, piecesFrom cuts 0 piece (text ++ rest) = piecesFrom cuts 0 (text.reverse ++ piece) rest

section

variable {cuts : CutRule} {piece a b : List Char}

theorem Uncut.nil : Uncut cuts piece [] := fun _ => rfl

theorem Uncut.append (ha : Uncut cuts piece a) (hb : Uncut cuts (a.reverse ++ piece) b) :
    Uncut cuts piece (a ++ b) := by
  intro rest
  rw [List.append_assoc, ha, hb, List.reverse_append, List.append_assoc]

/-- An invariant of the piece carries the walk over a text without parentheses. -/
theorem uncut_of_invariant {P : List Char → Prop} {text : List Char} (start : P piece)
    (step : ∀ c ∈ text, ∀ piece, P piece →
      isParenthesis c = false ∧ (∀ rest, cuts piece c rest = false) ∧ P (c :: piece)) :
    Uncut cuts piece text := by
  induction text generalizing piece with
  | nil => exact Uncut.nil
  | cons c text ih =>
      intro rest
      obtain ⟨hc, hkeep, hnext⟩ := step c List.mem_cons_self piece start
      have htail := ih hnext (fun d hd => step d (List.mem_cons_of_mem c hd)) rest
      rw [List.cons_append, piecesFrom_kept hc fun _ => hkeep _, htail, List.reverse_cons,
        List.append_assoc]
      rfl

theorem uncut_of_forall {text : List Char}
    (h : ∀ c ∈ text, isParenthesis c = false ∧ ∀ piece rest, cuts piece c rest = false) :
    Uncut cuts piece text :=
  uncut_of_invariant (P := fun _ => True) trivial fun c hc piece _ =>
    ⟨(h c hc).1, (h c hc).2 piece, trivial⟩

theorem Uncut.intercalate {sep : List Char} {texts : List (List Char)}
    (hsep : ∀ piece, Uncut cuts piece sep) (h : ∀ t ∈ texts, ∀ piece, Uncut cuts piece t)
    (piece : List Char) : Uncut cuts piece (sep.intercalate texts) :=
  intercalate_preserves (P := fun text => ∀ piece, Uncut cuts piece text) (fun _ => Uncut.nil)
    (fun _ _ ha hb piece => (ha piece).append (hb _)) hsep h piece

/-- Inside parentheses nothing is cut. -/
theorem piecesFrom_inside {depth : Nat} {inner : List Char}
    (h : ∀ c ∈ inner, isParenthesis c = false) (rest : List Char) :
    piecesFrom cuts (depth + 1) piece (inner ++ rest) =
      piecesFrom cuts (depth + 1) (inner.reverse ++ piece) rest := by
  induction inner generalizing piece with
  | nil => rfl
  | cons c inner ih =>
      rw [List.cons_append, piecesFrom_kept (h c List.mem_cons_self) (fun hzero => by cases hzero),
        ih fun d hd => h d (List.mem_cons_of_mem c hd), List.reverse_cons, List.append_assoc]
      rfl

theorem uncut_parenthesized {inner : List Char} (h : ∀ c ∈ inner, isParenthesis c = false) :
    Uncut cuts piece ('(' :: (inner ++ [')'])) := by
  intro rest
  rw [List.cons_append, List.append_assoc, piecesFrom_opening, piecesFrom_inside h,
    List.singleton_append, piecesFrom_closing]
  simp

end

/-- A text that can be told from its neighbours: it is trimmed, the walk goes over it and over the
blanks in front of the mark, and cuts at the mark. -/
structure Separable (cuts : CutRule) (lead : List Char) (mark : Char) (text : List Char) :
    Prop where
  trimmed : Trimmed text
  uncut : ∀ piece, allBlank piece = true → Uncut cuts piece text
  behind : ∀ piece, allBlank piece = true → Uncut cuts (text.reverse ++ piece) lead
  cut : ∀ piece rest, allBlank piece = true →
    cuts (lead.reverse ++ (text.reverse ++ piece)) mark (' ' :: rest) = true

section

variable {cuts : CutRule} (lead : List Char) (mark : Char)
  (hlead : allBlank lead = true) (hmark : isParenthesis mark = false)
  (hblank : ∀ rest, cuts [] ' ' rest = false)

include hlead hmark hblank

/-- The walk over joined texts, behind some blanks. -/
theorem piecesFrom_joined (piece : List Char) (hpiece : allBlank piece = true) {text : List Char}
    {texts : List (List Char)} (h : ∀ t ∈ text :: texts, Separable cuts lead mark t) :
    (piecesFrom cuts 0 piece ((lead ++ [mark, ' ']).intercalate (text :: texts))).map
      (List.map trim) = .ok (text :: texts) := by
  induction texts generalizing piece text with
  | nil =>
      have htext := h text List.mem_cons_self
      have hwalk := htext.uncut piece hpiece []
      have htrim : trim (piece.reverse ++ text) = text := by
        have htrim := trim_of_trimmed htext.trimmed piece.reverse []
          (by rwa [allBlank, List.all_reverse]) rfl
        rwa [List.append_nil] at htrim
      rw [List.append_nil] at hwalk
      rw [List.intercalate_singleton, hwalk, piecesFrom, List.reverse_append, List.reverse_reverse]
      exact congrArg (fun t => Except.ok [t]) htrim
  | cons next texts ih =>
      have htext := h text List.mem_cons_self
      have hrest := ih [' '] (by decide)
        fun t ht => h t (List.mem_cons_of_mem text ht)
      have hsplit : (lead ++ [mark, ' ']).intercalate (text :: next :: texts) =
          text ++ (lead ++ mark :: ' ' :: (lead ++ [mark, ' ']).intercalate (next :: texts)) := by
        rw [List.intercalate_cons_cons]
        simp
      have htrim : trim (lead.reverse ++ (text.reverse ++ piece)).reverse = text := by
        have htrim := trim_of_trimmed htext.trimmed piece.reverse lead
          (by rwa [allBlank, List.all_reverse]) hlead
        simpa [List.append_assoc] using htrim
      rw [hsplit, htext.uncut piece hpiece, htext.behind piece hpiece,
        piecesFrom_cut hmark (htext.cut piece _ hpiece),
        piecesFrom_kept (by decide) fun _ => hblank _]
      obtain ⟨raw, hraw, htrims⟩ := Fallible.map_eq_ok.1 hrest
      refine Fallible.map_eq_ok.2 ⟨_, Fallible.map_eq_ok.2 ⟨raw, hraw, rfl⟩, ?_⟩
      rw [List.map_cons, htrim, htrims]

theorem trimmedPieces_joined {texts : List (List Char)} (hne : texts ≠ [])
    (h : ∀ t ∈ texts, Separable cuts lead mark t) :
    trimmedPieces cuts ((lead ++ [mark, ' ']).intercalate texts) = .ok texts := by
  cases texts with
  | nil => exact absurd rfl hne
  | cons text texts =>
      have hwalk := piecesFrom_joined lead mark hlead hmark hblank [] rfl h
      obtain ⟨raw, hraw, htrims⟩ := Fallible.map_eq_ok.1 hwalk
      rw [trimmedPieces, pieces, hraw, ← htrims]

end

end ClauseText

end Resolution
