import Resolution.Host
import Resolution.Proofs.Checkpoints
import Resolution.Proofs.JsonTexts

/-!
# Saved states

A checkpoint holds names, numbers and flags but no decimals, so its text is read as it was written,
and a state is loaded from the text it was saved to. The text holds no carriage return: reading it
from a file, where line ends are unified, changes nothing.
-/

namespace Resolution

namespace Text

theorem unifyLineEnds_eq_self {text : List Char} (h : '\r' ∉ text) : unifyLineEnds text = text := by
  fun_induction unifyLineEnds text with
  | case1 => rfl
  | case2 rest ih => simp at h
  | case3 rest _ ih => simp at h
  | case4 c rest _ _ ih => rw [ih fun hrest => h (.tail _ hrest)]

theorem ofFileBytes?_toUTF8 {text : String} (h : '\r' ∉ text.toList) :
    ofFileBytes? text.toUTF8 = some text := by
  have hvalid : String.fromUTF8? text.toUTF8 = some text := dif_pos text.isValidUTF8
  rw [ofFileBytes?, hvalid, Option.map_some, unifyLineEnds_eq_self h, String.ofList_toList]

end Text

namespace Checkpoint

open Json

section

variable {α : Type} {write : α → Json}

theorem decimalFree_arr_map (h : ∀ a, DecimalFree (write a)) (l : List α) :
    DecimalFree (.arr (l.map write)) := by
  apply DecimalFree.arr
  intro item hitem
  obtain ⟨a, -, rfl⟩ := List.mem_map.1 hitem
  exact h a

end

theorem decimalFree_ofInts (ns : List Int) : DecimalFree (.ofInts ns) :=
  decimalFree_arr_map .int ns

theorem decimalFree_ofTerm (t : Term) : DecimalFree (ofTerm t) := by
  cases t <;> exact .obj (List.forall_mem_singleton.2 (.str _))

theorem decimalFree_ofLiteral (l : Literal) : DecimalFree (ofLiteral l) := by
  apply DecimalFree.obj
  simp only [List.forall_mem_cons]
  exact ⟨.str _, decimalFree_arr_map decimalFree_ofTerm _, .bool _, by simp⟩

theorem decimalFree_ofLiterals (ls : List Literal) : DecimalFree (ofLiterals ls) :=
  decimalFree_arr_map decimalFree_ofLiteral ls

theorem decimalFree_ofClause (c : Clause) : DecimalFree (ofClause c) :=
  decimalFree_ofLiterals c.literals

theorem decimalFree_ofBinding (b : String × Term) : DecimalFree (ofBinding b) := by
  apply DecimalFree.arr
  simp only [List.forall_mem_cons]
  exact ⟨.str _, decimalFree_ofTerm _, by simp⟩

theorem decimalFree_ofStep (step : Step) : DecimalFree (ofStep step) := by
  apply DecimalFree.obj
  simp only [List.forall_mem_cons]
  exact ⟨decimalFree_ofClause _, decimalFree_ofInts _, decimalFree_ofLiterals _,
    decimalFree_arr_map decimalFree_ofBinding _, by simp⟩

theorem decimalFree_ofPair (p : Int × Int) : DecimalFree (ofPair p) :=
  decimalFree_ofInts [p.1, p.2]

theorem decimalFree_ofState (s : ProofState) : DecimalFree (ofState s) := by
  apply DecimalFree.obj
  simp only [List.forall_mem_cons]
  exact ⟨decimalFree_arr_map decimalFree_ofClause _, decimalFree_arr_map decimalFree_ofStep _,
    decimalFree_arr_map decimalFree_ofPair _, .int _, .int _, .bool _, .str _, by simp⟩

theorem records_ofState (s : ProofState) : Records s (ofState s) :=
  ⟨rfl, rfl, rfl, rfl, rfl, rfl, rfl⟩

end Checkpoint

namespace ProofState

theorem not_mem_save (s : ProofState) : '\r' ∉ s.save.toList := by
  intro hmem
  rw [save, Json.render, String.toList_ofList] at hmem
  rcases (Checkpoint.decimalFree_ofState s).written_of_mem_chars 0 _ hmem with h | h
  · exact absurd h (by decide)
  · exact absurd h (by decide)

/-- A state is loaded from the text it was saved to, and a file gives that text back: its bytes are
those of a text, in which no line end is changed. -/
theorem load_save (s : ProofState) :
    load s.save = .ok s ∧ Text.ofFileBytes? s.save.toUTF8 = some s.save := by
  constructor
  · rw [load, save, (Checkpoint.decimalFree_ofState s).parse?_render]
    exact (Checkpoint.records_ofState s).toState
  · exact Text.ofFileBytes?_toUTF8 s.not_mem_save

end ProofState

end Resolution
