import Resolution.Graph
import Resolution.Proofs.ParseFaults
import Resolution.Proofs.Readback

/-!
# Labels that can be read back

The labels of a derivation graph hold the names of the clauses. A name ends with a backslash only if
that of its last literal does, which is then a name without arguments; and every such name stands in
the text that the search started from.
-/

namespace Resolution

theorem getLast?_intercalate {sep : List Char} {d : Char} (hsep : sep.getLast? = some d)
    {texts : List (List Char)} {c : Char} (h : (sep.intercalate texts).getLast? = some c) :
    (∃ t ∈ texts, t.getLast? = some c) ∨ c = d := by
  induction texts with
  | nil => cases h
  | cons text texts ih =>
      cases texts with
      | nil =>
          rw [List.intercalate_singleton] at h
          exact .inl ⟨text, List.mem_cons_self, h⟩
      | cons next texts =>
          rw [List.intercalate_cons_cons, List.getLast?_append] at h
          cases hlast : (sep.intercalate (next :: texts)).getLast? with
          | none =>
              rw [hlast, Option.none_or, List.getLast?_append, hsep] at h
              exact .inr (Option.some.inj h).symm
          | some e =>
              rw [hlast, Option.some_or] at h
              rcases ih (hlast.trans h) with ⟨t, ht, htlast⟩ | hd
              · exact .inl ⟨t, List.mem_cons_of_mem text ht, htlast⟩
              · exact .inr hd

theorem Literal.getLast?_text {l : Literal} (h : l.text.toList.getLast? = some '\\') :
    l.args = [] ∧ l.name.toList.getLast? = some '\\' := by
  rw [l.toList_text] at h
  rcases l.argumentText_cases with ⟨hargs, htext⟩ | ⟨-, htext⟩
  · rw [htext, List.append_nil, List.getLast?_append] at h
    refine ⟨hargs, ?_⟩
    cases hlast : l.name.toList.getLast? with
    | none =>
        rw [hlast, Option.none_or, signText] at h
        split at h <;> cases h
    | some c => rwa [hlast, Option.some_or] at h
  · rw [htext] at h
    simp [List.getLast?_append, List.getLast?_cons] at h

/-- Only the name of a predicate without arguments can be the end of a clause's name. -/
theorem Clause.exists_literal_of_getLast?_name {c : Clause}
    (h : c.name.toList.getLast? = some '\\') :
    ∃ l ∈ c.literals, l.args = [] ∧ l.name.toList.getLast? = some '\\' := by
  by_cases hne : c.literals = []
  · have hempty : c.isEmpty = true := by simpa [isEmpty] using hne
    rw [name, if_pos hempty] at h
    cases h
  · rw [toList_name hne] at h
    rcases getLast?_intercalate rfl h with ⟨t, ht, hlast⟩ | hblank
    · obtain ⟨l, hl, rfl⟩ := List.mem_map.1 ht
      exact ⟨l, hl, Literal.getLast?_text hlast⟩
    · cases hblank

/-- The names of predicates are taken from the text as they stand there. -/
theorem infix_name_of_parseClauses {text : String} {cs : List Clause}
    (h : parseClauses text = .ok cs) {c : Clause} (hc : c ∈ cs) {l : Literal}
    (hl : l ∈ c.literals) : l.name.toList <:+: text.toList := by
  obtain ⟨-, parts, hparts, hclauses⟩ := ClauseText.readClauseSet_eq_ok.1 h
  obtain ⟨part, hpart, hclause⟩ := Fallible.exists_of_mem_mapM hclauses hc
  obtain ⟨-, pieces, hpieces, hliterals⟩ := ClauseText.readClause_eq_ok.1 hclause
  obtain ⟨piece, hpiece, hread⟩ := Fallible.exists_of_mem_mapM hliterals hl
  have hname : l.name.toList <:+: Text.trim piece := by
    rw [ClauseText.readLiteral] at hread
    split at hread
    · next l' hl' =>
        obtain rfl := Except.ok.inj hread
        obtain ⟨signs, name, rest, htext, -, -, -, -, -, hname, -⟩ :=
          ClauseText.literalOf_eq_ok hl'
        rw [hname, String.toList_ofList, htext]
        exact ⟨signs, rest, List.append_assoc _ _ _⟩
    · cases hread
  have hpiece' : piece <:+: part := ClauseText.infix_of_mem_trimmedPieces hpieces hpiece
  have hpart' : part <:+: text.toList := ClauseText.infix_of_mem_trimmedPieces hparts hpart
  exact ((hname.trans (ClauseText.isInfix_trim piece)).trans hpiece').trans hpart'

/-- A search invents no names, so that a clause's name ends with a backslash only if the name of a
predicate in the text does. -/
theorem ProofState.GrownFrom.exists_name_of_getLast?_name {cs : List Clause} {s : ProofState}
    (h : s.GrownFrom cs) {c : Clause} (hc : c ∈ s.clauses)
    (hlast : c.name.toList.getLast? = some '\\') :
    ∃ d ∈ cs, ∃ l ∈ d.literals, l.name.toList.getLast? = some '\\' := by
  rw [h.clauses] at hc
  obtain ⟨l, hl, -, hend⟩ := Clause.exists_literal_of_getLast?_name hlast
  obtain ⟨d, hd, k, hk, hname, -⟩ := mem_symbols.1 (h.growth.literal_over hc hl).1
  exact ⟨d, hd, k, hk, hname ▸ hend⟩

/-- Whatever calls follow on reading a text, the line of each clause's node holds its label, the
number and the name, between marks. It is read back from there up to the closing mark, unless the
name ends with a backslash; then the string has no end in its line. So all labels can be read back
if there is no backslash in the text. -/
theorem labels_read_back_iff {text : String} {cs : List Clause}
    (hparse : parseClauses text = .ok cs) (calls : List Call) :
    let s := (ProofState.ofClauses cs).after calls
    (∀ i c, s.clauses[i]? = some c →
      ∃ line, (Graph.lines s)[i + 3]? = some line ∧
        line = s!"  c{i + 1} [label=\"" ++ Graph.label c i ++ "\"" ++ Graph.attributes s c i ∧
        Graph.readLabel line.toList =
          if c.name.toList.getLast? = some '\\' then none
          else some ((toString (i + 1) ++ ". " ++ c.name).toList,
            (Graph.attributes s c i).toList)) ∧
      ('\\' ∉ text.toList → ∀ c ∈ s.clauses, c.name.toList.getLast? ≠ some '\\') := by
  intro s
  have hgrown : s.GrownFrom cs := (ProofState.grownFrom_ofClauses cs).after calls
  refine ⟨fun i c hc => ?_, fun hnot c hc hlast => ?_⟩
  · exact ⟨Graph.nodeLine s c i, Graph.getElem?_lines hc, Graph.nodeLine_eq s c i,
      Graph.readLabel_nodeLine s c i⟩
  · obtain ⟨d, hd, l, hl, hend⟩ := hgrown.exists_name_of_getLast?_name hc hlast
    have hmem : '\\' ∈ l.name.toList := List.mem_of_getLast? hend
    exact hnot ((infix_name_of_parseClauses hparse hd hl).subset hmem)

/-- Here the name ends with a backslash that was inside the name of its parent. -/
theorem labels_read_back_iff_resolvent :
    let c : Clause := ⟨[⟨"P\\", [], false⟩, ⟨"Q\\\"", [.var "x"], false⟩]⟩
    let d : Clause := ⟨[⟨"Q\\\"", [.const "a"], true⟩]⟩
    let s := (ProofState.ofClauses [c, d]).after [.pass]
    parseClauses "P\\ V Q\\\"(x), ¬Q\\\"(a)" = .ok [c, d] ∧
      (∃ line, (Graph.lines s)[3]? = some line ∧
        Graph.readLabel line.toList = some ("1. P\\ V Q\\\"(x)".toList,
          ", fillcolor=lightgray, style=filled];\n".toList)) ∧
      ∃ line, (Graph.lines s)[5]? = some line ∧ Graph.readLabel line.toList = none := by
  intro c d s
  have hparse : parseClauses "P\\ V Q\\\"(x), ¬Q\\\"(a)" = .ok [c, d] := by decide +kernel
  have hparent : s.clauses[0]? = some c := by
    subst s c d
    decide +kernel
  have hresolvent : s.clauses[2]? = some ⟨[⟨"P\\", [], false⟩]⟩ := by
    subst s c d
    decide +kernel
  have hattributes : Graph.attributes s c 0 = ", fillcolor=lightgray, style=filled];\n" := by
    subst s c d
    decide +kernel
  obtain ⟨hlabels, -⟩ := labels_read_back_iff hparse [.pass]
  obtain ⟨first, hfirst, -, hread⟩ := hlabels 0 c hparent
  obtain ⟨third, hthird, -, hlost⟩ := hlabels 2 _ hresolvent
  rw [if_neg (by subst c; decide +kernel), hattributes] at hread
  rw [if_pos (by decide +kernel)] at hlost
  exact ⟨hparse, ⟨first, hfirst, hread⟩, third, hthird, hlost⟩

/-- The backslash at the end of the name takes the closing mark into the label, and no other mark
follows. -/
theorem label_without_end :
    ∃ cs, parseClauses "P\\" = .ok cs ∧
      ∃ line, (Graph.lines ((ProofState.ofClauses cs).after [.run none]))[3]? = some line ∧
        line = "  c1 [label=\"1. P\\\", fillcolor=lightgray, style=filled];\n" ∧
        Graph.readLabel line.toList = none := by
  obtain ⟨cs, hcs⟩ : ∃ cs : List Clause, cs = [⟨[⟨"P\\", [], false⟩]⟩] := ⟨_, rfl⟩
  have hrun : (ProofState.ofClauses cs).after [.run none] =
      (ProofState.ofClauses cs).pass.state := by
    change ((ProofState.ofClauses cs).run none).state = _
    rw [hcs, ProofState.run_of_running rfl rfl, ProofState.run_of_halted none (by decide +kernel)]
  refine ⟨cs, ?_, _, ?_, rfl, by decide +kernel⟩
  · rw [hcs]
    decide +kernel
  · rw [hrun, hcs]
    decide +kernel

end Resolution
