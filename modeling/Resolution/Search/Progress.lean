import Resolution.Search.Atoms
import Resolution.Search.Pass

/-!
# Every pass makes progress

During a pass the steps are recorded at once while their clauses wait for the end of the pass. At
every moment, though, the clauses of the state followed by the waiting ones are what the steps so
far lead to: each step resolves two clauses before it and gives a clause that is new at that point.
`Growth` says so by adding one step at a time.

A resolvent is over the symbols and terms of its parents, because a unifier binds variables only to
terms of the two literals. So every step takes up room among the clauses over the atoms at the
start, and a pass that does not halt the search leaves less room for further clauses.
-/

namespace Resolution

/-- A unifier that keeps to the terms of some clauses keeps literals over them. -/
theorem Literal.Over.apply {cs : List Clause} {u : Unifier}
    (hterm : ∀ t ∈ terms cs, u.apply t ∈ terms cs) {l : Literal} (h : l.Over cs) :
    (u.applyLiteral l).Over cs := by
  refine ⟨by simpa [Unifier.applyLiteral, Literal.arity] using h.1, fun t ht => ?_⟩
  obtain ⟨t', ht', rfl⟩ := List.mem_map.1 ht
  exact hterm t' (h.2 t' ht')

theorem Clause.over_of_mem_resolve {cs : List Clause} {c d : Clause} (hc : c ∈ cs) (hd : d ∈ cs)
    {r : Resolvent} (hr : r ∈ c.resolve d) {k : Literal} (hk : k ∈ r.clause.literals) :
    k.Over cs := by
  obtain ⟨hl, hm, -, hu, hliterals⟩ := Clause.resolve_cases hr
  have hterm : ∀ t ∈ terms cs, r.unifier.apply t ∈ terms cs := by
    intro t ht
    rcases Unifier.apply_eq_or_mem hu t with e | h | h
    · rw [e]
      exact ht
    · exact mem_terms.2 ⟨c, hc, r.left, hl, h⟩
    · exact mem_terms.2 ⟨d, hd, r.right, hm, h⟩
  have hremaining : ∀ e ∈ cs, ∀ l, k ∈ e.remaining r.unifier l → k.Over cs := by
    intro e he l hk
    obtain ⟨k', hk', rfl⟩ := List.mem_map.1 (List.mem_filter.1 hk).1
    exact (Literal.over_of_mem he hk').apply hterm
  rw [hliterals, List.mem_eraseDups, List.mem_append] at hk
  rcases hk with hk | hk
  · exact hremaining c hc r.left hk
  · exact hremaining d hd r.right hk

/-- Places do not move when clauses are added behind. -/
theorem getElem?_append_of_eq_some {cs : List Clause} {k : Nat} {c : Clause} (h : cs[k]? = some c)
    (more : List Clause) : (cs ++ more)[k]? = some c := by
  rw [List.getElem?_append_left (List.getElem?_eq_some_iff.1 h).choose]
  exact h

/-- A step that may follow on some clauses: it records a resolvent of two of them that is no
tautology and not the same as any of them. -/
structure Step.Extends (cs : List Clause) (step : Step) : Prop where
  origin : ∃ (i j : Nat) (c d : Clause), i < j ∧ cs[i]? = some c ∧ cs[j]? = some d ∧
    ∃ r ∈ c.resolve d, step = r.step i j
  not_tautology : step.resolvent.isTautology = false
  new : ∀ c ∈ cs, step.resolvent.same c = false

theorem Step.Extends.nodup {cs : List Clause} {step : Step} (h : step.Extends cs) :
    step.resolvent.literals.Nodup := by
  obtain ⟨i, j, c, d, -, -, -, r, hr, rfl⟩ := h.origin
  exact Clause.nodup_of_mem_resolve hr

/-- A step brings no symbols and no terms with it. -/
theorem Step.Extends.literal_over {cs : List Clause} {step : Step} (h : step.Extends cs)
    {l : Literal} (hl : l ∈ step.resolvent.literals) : l.Over cs := by
  obtain ⟨i, j, c, d, -, hi, hj, r, hr, rfl⟩ := h.origin
  exact Clause.over_of_mem_resolve (List.mem_of_getElem? hi) (List.mem_of_getElem? hj) hr hl

/-- Steps taken one after another, each from the clauses at the start and those added since. -/
inductive Growth (cs : List Clause) : List Step → Prop
  | nil : Growth cs []
  | snoc {steps : List Step} {step : Step} : Growth cs steps →
      step.Extends (cs ++ steps.map Step.resolvent) → Growth cs (steps ++ [step])

namespace Growth

variable {cs : List Clause} {steps more : List Step}

theorem append (h : Growth cs steps) (hmore : Growth (cs ++ steps.map Step.resolvent) more) :
    Growth cs (steps ++ more) := by
  induction hmore with
  | nil => rwa [List.append_nil]
  | snoc _ hstep ih =>
      rw [← List.append_assoc]
      refine ih.snoc ?_
      rwa [List.map_append, ← List.append_assoc]

theorem literal_over (h : Growth cs steps) {c : Clause} (hc : c ∈ cs ++ steps.map Step.resolvent)
    {l : Literal} (hl : l ∈ c.literals) : l.Over cs := by
  induction h generalizing c l with
  | nil => exact Literal.over_of_mem (by simpa using hc) hl
  | @snoc steps step _ hstep ih =>
      rw [List.map_append, ← List.append_assoc, List.mem_append] at hc
      rcases hc with hc | hc
      · exact ih hc hl
      · rw [List.map_singleton, List.mem_singleton] at hc
        have hatoms : atoms (cs ++ steps.map Step.resolvent) = atoms cs :=
          atoms_append fun d hd k hk => ih (List.mem_append_right cs hd) hk
        rw [Literal.over_iff, ← hatoms, ← Literal.over_iff]
        exact hstep.literal_over (hc ▸ hl)

/-- Every step takes up room. -/
theorem room_add_length_le (h : Growth cs steps) :
    room (cs ++ steps.map Step.resolvent) + steps.length ≤ room cs := by
  induction h with
  | nil => simp
  | @snoc steps step _ hstep ih =>
      have hlt : room (cs ++ steps.map Step.resolvent ++ [step.resolvent]) <
          room (cs ++ steps.map Step.resolvent) :=
        room_concat_lt (fun _ hl => hstep.literal_over hl) hstep.nodup hstep.not_tautology hstep.new
      rw [List.map_append, List.map_singleton, ← List.append_assoc, List.length_append,
        List.length_singleton]
      omega

/-- Every step extends the clauses before its own. -/
theorem extends_at (h : Growth cs steps) {i : Nat} {step : Step} (hi : steps[i]? = some step) :
    step.Extends (cs ++ (steps.take i).map Step.resolvent) := by
  induction h with
  | nil => simp at hi
  | @snoc steps last _ hlast ih =>
      by_cases hlt : i < steps.length
      · rw [List.getElem?_append_left hlt] at hi
        rw [List.take_append_of_le_length (Nat.le_of_lt hlt)]
        exact ih hi
      · have hi' := (List.getElem?_eq_some_iff.1 hi).choose
        have heq : i = steps.length := by
          rw [List.length_append, List.length_singleton] at hi'
          omega
        subst heq
        rw [List.getElem?_concat_length] at hi
        rw [List.take_left, ← Option.some.inj hi]
        exact hlast

/-- A step cites two clauses before its own and records one of their resolvents. -/
theorem origin_at (h : Growth cs steps) {k : Nat} {step : Step} (hk : steps[k]? = some step) :
    ∃ (i j : Nat) (c d : Clause), i < j ∧ j < cs.length + k ∧
      (cs ++ steps.map Step.resolvent)[i]? = some c ∧
      (cs ++ steps.map Step.resolvent)[j]? = some d ∧ ∃ r ∈ c.resolve d, step = r.step i j := by
  have hlt : k < steps.length := (List.getElem?_eq_some_iff.1 hk).choose
  obtain ⟨i, j, c, d, hij, hi, hj, hr⟩ := (h.extends_at hk).origin
  have hjlt := (List.getElem?_eq_some_iff.1 hj).choose
  rw [List.length_append, List.length_map, List.length_take_of_le (Nat.le_of_lt hlt)] at hjlt
  have hsplit : cs ++ steps.map Step.resolvent =
      (cs ++ (steps.take k).map Step.resolvent) ++ (steps.drop k).map Step.resolvent := by
    rw [List.append_assoc, ← List.map_append, List.take_append_drop]
  rw [hsplit]
  exact ⟨i, j, c, d, hij, hjlt, getElem?_append_of_eq_some hi _, getElem?_append_of_eq_some hj _,
    hr⟩

end Growth

/-- The known clauses are those at the start and those accepted since, and the accepted steps grow
from the clauses at the start. -/
structure Sweep.GrownFrom (cs : List Clause) (sweep : Sweep) : Prop where
  known : ∀ c, c ∈ sweep.known ↔ c ∈ cs ++ sweep.accepted.toList.map Step.resolvent
  growth : Growth cs sweep.accepted.toList

theorem Sweep.GrownFrom.offer {cs : List Clause} {sweep : Sweep} (h : sweep.GrownFrom cs)
    {i j : Nat} {c d : Clause} (hij : i < j) (hi : cs[i]? = some c) (hj : cs[j]? = some d)
    {r : Resolvent} (hr : r ∈ c.resolve d) : (sweep.offer i j r).GrownFrom cs := by
  rcases sweep.offer_cases i j r with ⟨-, log, e⟩ | ⟨-, htaut, hnew, log, e⟩
  · rw [e]
    exact ⟨h.known, h.growth⟩
  · rw [e]
    refine ⟨fun k => ?_, ?_⟩
    · rw [Array.toList_push, List.map_append, ← List.append_assoc, List.mem_append,
        List.map_singleton, List.mem_singleton, List.mem_cons, h.known]
      exact or_comm
    · rw [Array.toList_push]
      refine h.growth.snoc ⟨?_, htaut, fun k hk => hnew k ((h.known k).2 hk)⟩
      exact ⟨i, j, c, d, hij, getElem?_append_of_eq_some hi _, getElem?_append_of_eq_some hj _, r,
        hr, rfl⟩

theorem ProofState.grownFrom_sweepAt (s : ProofState) (pairs tries : Nat) :
    (s.sweepAt pairs tries).GrownFrom s.clauses := by
  refine ProofState.sweepAt_preserves ?_ ?_ ?_ pairs tries
  · intro sweep i j c d _ _ _ h
    exact ⟨h.known, h.growth⟩
  · intro sweep i j c d r hij hi hj hr h
    exact h.offer hij hi hj hr
  · exact ⟨by simp, .nil⟩

theorem ProofState.grownFrom_sweep (s : ProofState) : s.sweep.GrownFrom s.clauses := by
  rw [sweep_eq_sweepAt]
  exact s.grownFrom_sweepAt _ _

/-- What a search has left to do: nothing once it has halted. -/
def ProofState.remaining (s : ProofState) : Nat := if s.halted then 0 else room s.clauses + 1

/-- Whichever way the pairs are gone through, a sweep that accepts a clause leaves less to do, and
one that accepts none halts the search. -/
theorem ProofState.remaining_finish_lt {s : ProofState} (h : s.halted = false) {sweep : Sweep}
    (hgrown : sweep.GrownFrom s.clauses) : (s.finish sweep).remaining < s.remaining := by
  have hroom := hgrown.growth.room_add_length_le
  have hstart : s.remaining = room s.clauses + 1 := by simp [remaining, h]
  rw [hstart]
  by_cases hend : (s.finish sweep).halted = true
  · simp [remaining, hend]
  · have hsteps : sweep.accepted.toList ≠ [] := by
      intro hnil
      exact hend (by simp [finish, hnil])
    have hpos := List.length_pos_iff.2 hsteps
    have hclauses : (s.finish sweep).clauses =
        s.clauses ++ sweep.accepted.toList.map Step.resolvent := rfl
    rw [remaining, if_neg hend, hclauses]
    omega

theorem ProofState.remaining_pass_lt {s : ProofState} (h : s.halted = false) :
    s.pass.state.remaining < s.remaining :=
  remaining_finish_lt h s.grownFrom_sweep

end Resolution
