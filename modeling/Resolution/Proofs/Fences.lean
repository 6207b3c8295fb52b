import Resolution.Assistant.Basic
import Resolution.Proofs.Printing
import Resolution.Scratch

/-!
# Clauses from a text service

A service gives a clause set as it is, between fences, or between fences on lines of their own with
a tag behind the first. Whether the first line is a tag is guessed from its characters. Line feeds
of a printed clause set stand inside parentheses, so its first line, if there is a second, holds a
parenthesis and is not taken for a tag.
-/

namespace Resolution

open Text ClauseText

namespace Text

theorem exists_range_of_covers {ranges : List (Nat × Nat)} {code : Nat}
    (h : covers ranges code = true) : ∃ r ∈ ranges, r.1 ≤ code ∧ code ≤ r.2 := by
  induction ranges with
  | nil => cases h
  | cons r ranges ih =>
      simp only [covers, Bool.and_eq_true, Bool.or_eq_true, decide_eq_true_eq] at h
      obtain ⟨hlow, hhigh | hrest⟩ := h
      · exact ⟨r, List.mem_cons_self, hlow, hhigh⟩
      · obtain ⟨r', hr', hcode⟩ := ih hrest
        exact ⟨r', List.mem_cons_of_mem r hr', hcode⟩

theorem blank_codes_outside_identifiers : ∀ r ∈ blankRanges, ∀ k < r.2 + 1 - r.1,
    covers identifierStartRanges (r.1 + k) = false ∧
      covers identifierContinueRanges (r.1 + k) = false := by
  decide +kernel

/-- A blank neither starts nor continues an identifier. -/
theorem not_in_identifier_of_isBlank {c : Char} (h : isBlank c = true) :
    startsIdentifier c = false ∧ continuesIdentifier c = false := by
  obtain ⟨r, hr, hlow, hhigh⟩ := exists_range_of_covers h
  have hcode := blank_codes_outside_identifiers r hr (c.toNat - r.1) (by omega)
  rw [Nat.add_sub_cancel' hlow] at hcode
  have hne : c ≠ '_' := by
    rintro rfl
    exact absurd h (by decide)
  exact ⟨by simp [startsIdentifier, hne, hcode.1], hcode.2⟩

theorem not_mem_of_isIdentifier {name : List Char} {c : Char} (h : isIdentifier name = true)
    (hc : startsIdentifier c = false ∧ continuesIdentifier c = false) : c ∉ name := by
  cases name with
  | nil => simp
  | cons first rest =>
      simp only [isIdentifier, Bool.and_eq_true, List.all_eq_true] at h
      intro hmem
      rcases List.mem_cons.1 hmem with rfl | hmem
      · exact absurd (hc.1.symm.trans h.1) (by simp)
      · exact absurd (hc.2.symm.trans (h.2 c hmem)) (by simp)

theorem isBlank_of_isIdentifier {name : List Char} (h : isIdentifier name = true) :
    ∀ c ∈ name, isBlank c = false := by
  intro c hc
  cases hblank : isBlank c with
  | false => rfl
  | true => exact absurd hc (not_mem_of_isIdentifier h (not_in_identifier_of_isBlank hblank))

end Text

/-- A parenthesis is opened in front of every line feed. -/
def OpensFirst (text : List Char) : Prop :=
  ∀ front rest, text = front ++ '\n' :: rest → '(' ∈ front

namespace OpensFirst

theorem of_not_mem {text : List Char} (h : '\n' ∉ text) : OpensFirst text := by
  intro front rest htext
  exact absurd (by simp [htext]) h

theorem of_opening (text : List Char) : OpensFirst ('(' :: text) := by
  intro front rest htext
  cases front with
  | nil => cases htext
  | cons c front =>
      rw [List.cons_append, List.cons.injEq] at htext
      exact htext.1 ▸ List.mem_cons_self

/-- The line feed stands in the first text, or behind the beginning of the second. -/
theorem append {a b : List Char} (ha : OpensFirst a) (hb : OpensFirst b) :
    OpensFirst (a ++ b) := by
  intro front rest htext
  rcases List.append_eq_append_iff.1 htext with ⟨front', rfl, hrest⟩ | ⟨back, rfl, hrest⟩
  · exact List.mem_append_right _ (hb front' rest hrest)
  · cases back with
    | nil => exact absurd (hb [] rest hrest.symm) (by simp)
    | cons c back =>
        obtain ⟨rfl, -⟩ := List.cons.inj hrest
        exact ha front back rfl

theorem intercalate {sep : List Char} {texts : List (List Char)} (hsep : OpensFirst sep)
    (h : ∀ t ∈ texts, OpensFirst t) : OpensFirst (sep.intercalate texts) :=
  intercalate_preserves (of_not_mem (by simp)) (fun _ _ => append) hsep h

end OpensFirst

theorem Literal.WellFormed.opensFirst_text {l : Literal} (h : l.WellFormed) :
    OpensFirst l.text.toList := by
  rw [toList_text]
  refine OpensFirst.append (OpensFirst.of_not_mem fun hmem => ?_) ?_
  · exact absurd (h.head_chars '\n' hmem).2.2.2 (by decide)
  · rcases l.argumentText_cases with ⟨-, hargs⟩ | ⟨-, hargs⟩
    · rw [hargs]
      exact OpensFirst.of_not_mem (by simp)
    · rw [hargs]
      exact OpensFirst.of_opening _

theorem Clause.WellFormed.opensFirst_name {c : Clause} (h : c.WellFormed) :
    OpensFirst c.name.toList := by
  rw [toList_name h.nonempty]
  refine OpensFirst.intercalate (OpensFirst.of_not_mem (by decide)) fun text htext => ?_
  obtain ⟨l, hl, rfl⟩ := List.mem_map.1 htext
  exact (h.literals l hl).opensFirst_text

namespace Assistant

theorem isTag_of_opening {line : List Char} (h : '(' ∈ line) : isTag line = false := by
  obtain ⟨front, back, hfront, hback, hline⟩ := exists_blanks_around_trim line
  have hblank : isBlank '(' = false := by decide
  have hall : allBlank line = false := by
    rw [allBlank, List.all_eq_false]
    exact ⟨'(', h, by simp [hblank]⟩
  have htrim : '(' ∈ trim line := by
    rw [hline, List.mem_append, List.mem_append] at h
    rcases h with (h | h) | h
    · exact absurd (List.all_eq_true.1 hfront '(' h) (by simp [hblank])
    · exact h
    · exact absurd (List.all_eq_true.1 hback '(' h) (by simp [hblank])
  cases hname : isIdentifier (trim line) with
  | false => rw [isTag, hall, hname, Bool.or_false]
  | true =>
      have houtside : startsIdentifier '(' = false ∧ continuesIdentifier '(' = false := by
        decide +kernel
      exact absurd htrim (not_mem_of_isIdentifier hname houtside)

theorem isTag_of_isIdentifier {tag : List Char} (h : isIdentifier tag = true) :
    isTag tag = true := by
  have hchars := isBlank_of_isIdentifier h
  have htrimmed : Trimmed tag := by
    constructor
    · cases hhead : tag.head? with
      | none => rfl
      | some c => exact hchars c (List.mem_of_head? hhead)
    · cases hlast : tag.getLast? with
      | none => rfl
      | some c => exact hchars c (List.mem_of_getLast? hlast)
  rw [isTag, trim_eq_self htrimmed, h, Bool.or_true]

/-- The first line of a printed clause set stays. -/
theorem dropTag_of_opensFirst {text : List Char} (h : OpensFirst text) : dropTag text = text := by
  unfold dropTag
  split
  · rfl
  · next c rest hdrop =>
      have hfeed : c = '\n' := by
        have hhead := head?_dropWhile_any (fun c => decide (c ≠ '\n')) text
        rw [hdrop] at hhead
        simpa using hhead
      have htext : text = text.takeWhile (· ≠ '\n') ++ c :: rest := by
        rw [← hdrop, List.takeWhile_append_dropWhile]
      have hline : '(' ∈ text.takeWhile (· ≠ '\n') := h _ rest (hfeed ▸ htext)
      rw [isTag_of_opening hline, Bool.and_false]
      rfl

/-- A tag on a line of its own goes. -/
theorem dropTag_append {tag rest : List Char} (htag : tag = [] ∨ isIdentifier tag = true)
    (hrest : allBlank rest = false) : dropTag (tag ++ '\n' :: rest) = rest := by
  have hfeed : ∀ c ∈ tag, decide (c ≠ '\n') = true := by
    intro c hc
    rcases htag with rfl | htag
    · cases hc
    · have hblank := isBlank_of_isIdentifier htag c hc
      refine decide_eq_true fun e => ?_
      rw [e] at hblank
      exact absurd hblank (by decide)
  obtain ⟨htake, hdrop⟩ := takeWhile_append_of_head? (b := '\n' :: rest) hfeed (by simp)
  have hisTag : isTag tag = true := by
    rcases htag with rfl | htag
    · rfl
    · exact isTag_of_isIdentifier htag
  unfold dropTag
  rw [hdrop, htake]
  simp [hrest, hisTag]

/-- The ways in which a service gives a text, blanks at the ends apart. -/
inductive Gives (text : List Char) : List Char → Prop
  | bare : fence.isPrefixOf text = false → Gives text text
  | inline : Gives text (fence ++ (text ++ fence))
  | block (tag : List Char) : tag = [] ∨ isIdentifier tag = true →
      Gives text (fence ++ ((tag ++ '\n' :: (text ++ ['\n'])) ++ fence))

theorem stripFenceChars_fenced {body : List Char} :
    stripFenceChars (fence ++ (body ++ fence)) = trim (dropTag body) := by
  have htrimmed : Trimmed (fence ++ (body ++ fence)) :=
    trimmed_append (by decide) (by simp [fence]) (by decide) (by
      rw [List.getLast?_append_of_ne_nil _ (by decide)]
      decide)
  have hprefix : fence.isPrefixOf (fence ++ (body ++ fence)) = true :=
    List.isPrefixOf_iff_prefix.2 (List.prefix_append _ _)
  have hclosing : dropClosingFence (body ++ fence) = body := by
    rw [dropClosingFence, if_pos (List.isSuffixOf_iff_suffix.2 (List.suffix_append _ _)),
      List.length_append, Nat.add_sub_cancel, List.take_left]
  unfold stripFenceChars
  dsimp only
  rw [trim_eq_self htrimmed, if_pos hprefix, List.drop_left, hclosing]

/-- However it is given, a text whose first line is no tag comes out of its fences. -/
theorem Gives.stripFenceChars_eq {text given : List Char} (h : Gives text given)
    (htext : text ≠ [] ∧ Trimmed text) (hopens : OpensFirst text) :
    stripFenceChars given = text := by
  cases h with
  | bare hfence =>
      unfold stripFenceChars
      dsimp only
      rw [trim_eq_self htext.2, if_neg (by simp [hfence])]
  | inline => rw [stripFenceChars_fenced, dropTag_of_opensFirst hopens, trim_eq_self htext.2]
  | block tag htag =>
      have hblank : allBlank (text ++ ['\n']) = false := by
        rw [allBlank_append, allBlank_eq_false htext.1 htext.2, Bool.false_and]
      have htrim := trim_of_trimmed htext.2 [] ['\n'] rfl (by decide)
      rw [stripFenceChars_fenced, dropTag_append htag hblank]
      exact htrim

/-- Connecting leaves the replies as they are. -/
theorem connect_run {a : Assistant} {w : Scratch}
    (hw : a.connected = true ∨ w.installed = true) :
    ∃ w' : Scratch, (a.connect : StateM Scratch Bool).run w = (true, w') ∧
      w'.replies = w.replies := by
  unfold connect
  cases hconnected : a.connected with
  | true => exact ⟨w, rfl, rfl⟩
  | false =>
      have hinstalled : w.installed = true := by simpa [hconnected] using hw
      refine ⟨{ w with keys := w.keys ++ [a.key] }, ?_, rfl⟩
      change w.connect a.key = _
      rw [Scratch.connect, if_pos hinstalled]

/-- An assistant that reaches the service finishes the next reply. -/
theorem ask_run_of_reply {a : Assistant} {w : Scratch}
    (hw : a.connected = true ∨ w.installed = true) {reply : String} {rest : List (Option String)}
    (hreplies : w.replies = some reply :: rest) (text : String) :
    ((a.ask text : StateM Scratch _).run w).1.2 = .ok (a.role.finish reply) := by
  obtain ⟨w', hconnect, hkept⟩ := connect_run hw
  rw [← hkept] at hreplies
  have hask : ∀ request, (Host.ask request : StateM Scratch _).run w' =
      (some reply, { w' with requests := w'.requests ++ [request], replies := rest }) := by
    intro request
    change w'.ask request = _
    rw [Scratch.ask, hreplies]
  rw [ask, StateT.run_bind, hconnect]
  change (StateT.run (Host.ask _ >>= _ :
    StateM Scratch (Assistant × Except Fault String)) w').1.2 = _
  rw [StateT.run_bind, hask]
  rfl

end Assistant

open Assistant

/-- A formalizer hands every clause set that can be printed to the reader, whatever the problem was:
if the reply, blanks at its ends apart, is the printed clause set and does not begin with a fence,
or holds it between fences in one of the two ways, then reading the answer yields the clauses. -/
theorem formalizer_transports {cs : List Clause} (hne : cs ≠ []) (hcs : ∀ c ∈ cs, c.literals ≠ [])
    (h : ∀ c ∈ cs, ∀ l ∈ c.literals, l.WellFormed) {reply : String}
    (hreply : Gives (", ".intercalate (cs.map Clause.name)).toList (trim reply.toList))
    {a : Assistant} (ha : a.role = .formalizer) {w : Scratch}
    (hw : a.connected = true ∨ w.installed = true) {rest : List (Option String)}
    (hreplies : w.replies = some reply :: rest) (problem : String) :
    ∃ answer, ((a.ask problem : StateM Scratch _).run w).1.2 = .ok answer ∧
      parseClauses answer = .ok cs := by
  have hwf : ∀ c ∈ cs, c.WellFormed := fun c hc => ⟨hcs c hc, h c hc⟩
  have htext : (", ".intercalate (cs.map Clause.name)).toList ≠ [] ∧
      Trimmed (", ".intercalate (cs.map Clause.name)).toList := by
    rw [Clause.toList_joined_names]
    refine trimmed_intercalate (by simpa using hne) fun text htext => ?_
    obtain ⟨c, hc, rfl⟩ := List.mem_map.1 htext
    exact Clause.name_trimmed (hcs c hc) (h c hc)
  have hopens : OpensFirst (", ".intercalate (cs.map Clause.name)).toList := by
    rw [Clause.toList_joined_names]
    refine OpensFirst.intercalate (OpensFirst.of_not_mem (by decide)) fun text htext => ?_
    obtain ⟨c, hc, rfl⟩ := List.mem_map.1 htext
    exact (hwf c hc).opensFirst_name
  have hfinish : a.role.finish reply = ", ".intercalate (cs.map Clause.name) := by
    rw [ha]
    change String.ofList (stripFenceChars (String.ofList (trim reply.toList)).toList) = _
    rw [String.toList_ofList, hreply.stripFenceChars_eq htext hopens, String.ofList_toList]
  refine ⟨a.role.finish reply, ask_run_of_reply hw hreplies problem, ?_⟩
  rw [hfinish]
  exact Clause.parseClauses_names hne hwf

/-- The name holds backticks and the argument a line feed. The reply is on the lines of the fences,
or between them with a tag; either is found between blanks. -/
theorem formalizer_transports_backticks :
    let cs : List Clause := [⟨[⟨"P```", [.const "a\nb", .var "x"], true⟩, ⟨"V", [], false⟩]⟩,
      ⟨[⟨"text", [], false⟩]⟩]
    let formalizer : Assistant := { role := .formalizer, key := none }
    let ask (reply : String) :=
      ((formalizer.ask "Is it so?" : StateM Scratch _).run { replies := [some reply] }).1.2
    (∃ answer, ask " ```¬P```(a\nb, x) V V, text```\n" = .ok answer ∧
      parseClauses answer = .ok cs) ∧
    ∃ answer, ask "```prolog\n¬P```(a\nb, x) V V, text\n```" = .ok answer ∧
      parseClauses answer = .ok cs := by
  intro cs formalizer ask
  have hcs : ∀ c ∈ cs, c.literals ≠ [] := by
    subst cs
    decide
  have h : ∀ c ∈ cs, ∀ l ∈ c.literals, l.WellFormed := by
    subst cs
    decide +kernel
  have hprinted : (", ".intercalate (cs.map Clause.name)).toList =
      "¬P```(a\nb, x) V V, text".toList := by
    subst cs
    decide +kernel
  have hinline : Gives (", ".intercalate (cs.map Clause.name)).toList
      (trim " ```¬P```(a\nb, x) V V, text```\n".toList) := by
    have htrim : trim " ```¬P```(a\nb, x) V V, text```\n".toList =
        fence ++ ("¬P```(a\nb, x) V V, text".toList ++ fence) := by
      decide +kernel
    rw [hprinted, htrim]
    exact .inline
  have hblock : Gives (", ".intercalate (cs.map Clause.name)).toList
      (trim "```prolog\n¬P```(a\nb, x) V V, text\n```".toList) := by
    have htrim : trim "```prolog\n¬P```(a\nb, x) V V, text\n```".toList = fence ++
        (("prolog".toList ++ '\n' :: ("¬P```(a\nb, x) V V, text".toList ++ ['\n'])) ++ fence) := by
      decide +kernel
    rw [hprinted, htrim]
    exact .block "prolog".toList (.inr (by decide +kernel))
  exact ⟨formalizer_transports (List.cons_ne_nil _ _) hcs h hinline rfl (.inr rfl) rfl _,
    formalizer_transports (List.cons_ne_nil _ _) hcs h hblock rfl (.inr rfl) rfl _⟩

end Resolution
