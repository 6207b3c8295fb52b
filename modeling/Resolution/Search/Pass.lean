import Resolution.Derivation
import Resolution.Resolvent

/-!
# Passes of the search

A pass tries every pair of clauses that was not tried before, in lexicographic order of the places.
Of the resolvents it accepts those that are no tautologies and not the same as a clause held already
or accepted before in the pass. The accepted resolvents join the clauses at the end of the pass. The
empty clause ends the pass at once; a pass that accepts nothing leaves the clauses saturated.

The sweep of a pass is a loop over pairs of clauses with a loop over their resolvents inside.
`offer_cases` says all that one turn of the inner loop can do, and `sweepAt` is the sweep after some
pairs and some resolvents of the next pair. What every turn preserves holds at every moment, the end
included.
-/

namespace Resolution

/-- What a search reports on its way. -/
inductive Event where
  | passStarted (number : Int) (size : Nat)
  | tautology (clause : Clause)
  | accepted (clause : Clause) (left right : Nat)
  | passEnded (new size : Nat)
  deriving DecidableEq, Repr

def Event.text : Event → String
  | passStarted number size => s!"\n--- Pass {number}: {size} clauses ---\n"
  | tautology clause => s!"  [tautology] {clause.name}\n"
  | accepted clause left right => s!"  [new] {clause.name} (from {left} + {right})\n"
  | passEnded new size => s!"  Accepted: {new} | S: {size}\n"

/-- A proof state together with the events that led to it. -/
structure Run where
  state : ProofState
  log : List Event

def Run.logText (r : Run) : String := String.join (r.log.map Event.text)

/-- All pairs of an earlier and a later element, in order. -/
def orderedPairs {α : Type} : List α → List (α × α)
  | [] => []
  | a :: rest => rest.map (a, ·) ++ orderedPairs rest

/-- The step that records an entry found for the clauses at two places. -/
def Entry.step (e : Entry) (i j : Nat) : Step where
  resolvent := e.1
  parents := [(i : Int) + 1, (j : Int) + 1]
  literals := [e.2.1, e.2.2.1]
  substitution := e.2.2.2

/-- The step that records a resolvent of the clauses at two places. -/
def Resolvent.step (r : Resolvent) (i j : Nat) : Step := r.entry.step i j

@[simp]
theorem Resolvent.parents_step (r : Resolvent) (i j : Nat) :
    (r.step i j).parents = [(i : Int) + 1, (j : Int) + 1] := rfl

/-- A pass under way; the order of `known`, the clauses held or accepted so far, does not matter. -/
structure Sweep where
  known : List Clause
  checked : PairSet
  accepted : Array Step := #[]
  log : Array Event := #[]
  refuted : Bool := false

namespace Sweep

/-- Considers an entry found for the clauses at places `i` and `j`. After the empty clause nothing
is considered any more. -/
def consider (i j : Nat) (sweep : Sweep) (e : Entry) : Sweep :=
  if sweep.refuted then sweep
  else if e.1.isTautology then
    { sweep with log := sweep.log.push (.tautology e.1) }
  else if sweep.known.any e.1.same then sweep
  else
    { sweep with
      known := e.1 :: sweep.known
      accepted := sweep.accepted.push (e.step i j)
      log := sweep.log.push (.accepted e.1 (i + 1) (j + 1))
      refuted := e.1.isEmpty }

/-- Considers a resolvent by its entry. -/
def offer (i j : Nat) (sweep : Sweep) (r : Resolvent) : Sweep := sweep.consider i j r.entry

/-- Resolves two clauses, given with their places, unless that pair was tried before. -/
def visit (sweep : Sweep) (first second : Clause × Nat) : Sweep :=
  let place : Int × Int := (first.2, second.2)
  if sweep.refuted || sweep.checked.contains place then sweep
  else
    (first.1.resolve second.1).foldl (offer first.2 second.2)
      { sweep with checked := sweep.checked.insert place }

end Sweep

namespace ProofState

def sweep (s : ProofState) : Sweep :=
  (orderedPairs s.clauses.zipIdx).foldl (fun sweep pair => sweep.visit pair.1 pair.2)
    { known := s.clauses, checked := s.checked }

/-- The state that a sweep leaves behind. A state that has halted stays halted. -/
def finish (s : ProofState) (sweep : Sweep) : ProofState :=
  { s with
    clauses := s.clauses ++ sweep.accepted.toList.map Step.resolvent
    derivation := s.derivation ++ sweep.accepted.toList
    checked := sweep.checked
    passes := s.passes + 1
    halted := s.halted || sweep.refuted || sweep.accepted.toList.isEmpty
    haltReason :=
      if sweep.refuted then HaltReason.refuted
      else if sweep.accepted.toList.isEmpty then HaltReason.saturated
      else s.haltReason }

/-- The state that a sweep leaves behind, together with what the pass logs. -/
def concluded (s : ProofState) (sweep : Sweep) : Run where
  state := s.finish sweep
  log :=
    .passStarted (s.passes + 1) s.clauses.length ::
      (sweep.log.toList ++
        if sweep.refuted then []
        else [.passEnded sweep.accepted.toList.length (s.finish sweep).clauses.length])

/-- One pass. A state that has halted may be swept again. -/
def pass (s : ProofState) : Run := s.concluded s.sweep

end ProofState

theorem mem_insert_pair {t : PairSet} {p q : Int × Int} : p ∈ t.insert q ↔ p = q ∨ p ∈ t := by
  rw [Std.ExtTreeSet.mem_insert, Std.LawfulEqCmp.compare_eq_iff_eq, eq_comm]

theorem mem_orderedPairs {α : Type} {l : List α} {p : α × α} :
    p ∈ orderedPairs l ↔ ∃ i j : Nat, i < j ∧ l[i]? = some p.1 ∧ l[j]? = some p.2 := by
  induction l with
  | nil => simp [orderedPairs]
  | cons a l ih =>
      rw [orderedPairs, List.mem_append, ih, List.mem_map]
      constructor
      · rintro (⟨b, hb, rfl⟩ | ⟨i, j, hij, hi, hj⟩)
        · obtain ⟨j, hj⟩ := List.mem_iff_getElem?.1 hb
          exact ⟨0, j + 1, by omega, rfl, hj⟩
        · exact ⟨i + 1, j + 1, by omega, hi, hj⟩
      · rintro ⟨i, j, hij, hi, hj⟩
        obtain ⟨j, rfl⟩ : ∃ k, j = k + 1 := ⟨j - 1, by omega⟩
        rw [List.getElem?_cons_succ] at hj
        cases i with
        | zero =>
            have ha : a = p.1 := Option.some.inj hi
            exact .inl ⟨p.2, List.mem_of_getElem? hj, by rw [ha]⟩
        | succ i => exact .inr ⟨i, j, by omega, hi, hj⟩

/-- The pairs that a pass goes through: two clauses at an earlier and a later place. -/
theorem mem_orderedPairs_zipIdx {cs : List Clause} {first second : Clause × Nat} :
    (first, second) ∈ orderedPairs cs.zipIdx ↔
      first.2 < second.2 ∧ cs[first.2]? = some first.1 ∧ cs[second.2]? = some second.1 := by
  obtain ⟨c, m⟩ := first
  obtain ⟨d, n⟩ := second
  have hplace : ∀ (i k : Nat) (e : Clause),
      cs.zipIdx[i]? = some (e, k) ↔ k = i ∧ cs[i]? = some e := by
    intro i k e
    rw [List.getElem?_zipIdx, Option.map_eq_some_iff]
    constructor
    · rintro ⟨e', he, hk⟩
      simp only [Nat.zero_add, Prod.mk.injEq] at hk
      exact ⟨hk.2.symm, hk.1 ▸ he⟩
    · rintro ⟨rfl, he⟩
      exact ⟨e, he, by rw [Nat.zero_add]⟩
  simp only [mem_orderedPairs, hplace]
  constructor
  · rintro ⟨i, j, hij, ⟨rfl, hi⟩, rfl, hj⟩
    exact ⟨hij, hi, hj⟩
  · rintro ⟨hmn, hm, hn⟩
    exact ⟨m, n, hmn, ⟨rfl, hm⟩, rfl, hn⟩

namespace Sweep

/-- All that considering a resolvent can do. It is passed over after the empty clause, as a
tautology or as a known clause, and only the log may change; or it is accepted. -/
theorem offer_cases (i j : Nat) (sweep : Sweep) (r : Resolvent) :
    ((sweep.refuted = true ∨ r.clause.isTautology = true ∨
        ∃ c ∈ sweep.known, r.clause.same c = true) ∧
      ∃ log, sweep.offer i j r = { sweep with log }) ∨
    (sweep.refuted = false ∧ r.clause.isTautology = false ∧
      (∀ c ∈ sweep.known, r.clause.same c = false) ∧
      ∃ log, sweep.offer i j r =
        { known := r.clause :: sweep.known
          checked := sweep.checked
          accepted := sweep.accepted.push (r.step i j)
          log
          refuted := r.clause.isEmpty }) := by
  unfold offer consider
  split
  · next h => exact .inl ⟨.inl h, sweep.log, rfl⟩
  · next h =>
      split
      · next htaut => exact .inl ⟨.inr (.inl htaut), _, rfl⟩
      · next htaut =>
          split
          · next hany => exact .inl ⟨.inr (.inr (List.any_eq_true.1 hany)), sweep.log, rfl⟩
          · next hany =>
              refine .inr ⟨Bool.eq_false_iff.2 h, Bool.eq_false_iff.2 htaut, fun c hc => ?_, _, rfl⟩
              exact Bool.eq_false_iff.2 fun hsame => hany (List.any_eq_true.2 ⟨c, hc, hsame⟩)

/-- A visit that stops after some of the resolvents. -/
def visitFor (tries : Nat) (sweep : Sweep) (first second : Clause × Nat) : Sweep :=
  let place : Int × Int := (first.2, second.2)
  if sweep.refuted || sweep.checked.contains place then sweep
  else
    ((first.1.resolve second.1).take tries).foldl (offer first.2 second.2)
      { sweep with checked := sweep.checked.insert place }

theorem visit_eq_visitFor (sweep : Sweep) (first second : Clause × Nat) :
    sweep.visit first second = sweep.visitFor (first.1.resolve second.1).length first second := by
  rw [visitFor, List.take_length]
  rfl

end Sweep

namespace ProofState

/-- The sweep after the given number of pairs and of resolvents of the pair that is next. -/
def sweepAt (s : ProofState) (pairs tries : Nat) : Sweep :=
  let todo := orderedPairs s.clauses.zipIdx
  let done := (todo.take pairs).foldl (fun sweep pair => sweep.visit pair.1 pair.2)
    { known := s.clauses, checked := s.checked }
  match todo[pairs]? with
  | none => done
  | some (first, second) => done.visitFor tries first second

theorem sweep_eq_sweepAt (s : ProofState) :
    s.sweep = s.sweepAt (orderedPairs s.clauses.zipIdx).length 0 := by
  rw [sweepAt, List.take_length, List.getElem?_eq_none (Nat.le_refl _)]
  rfl

section Induction

variable {s : ProofState} {P : Sweep → Prop}
  (check : ∀ (sweep : Sweep) (i j : Nat) (c d : Clause), i < j → s.clauses[i]? = some c →
    s.clauses[j]? = some d → P sweep →
    P { sweep with checked := sweep.checked.insert ((i : Int), (j : Int)) })
  (offer : ∀ (sweep : Sweep) (i j : Nat) (c d : Clause) (r : Resolvent), i < j →
    s.clauses[i]? = some c → s.clauses[j]? = some d → r ∈ c.resolve d → P sweep →
    P (sweep.offer i j r))

include check offer

/-- What marking a pair and considering a resolvent preserve, a visit preserves. -/
theorem visitFor_preserves (tries : Nat) {sweep : Sweep} {first second : Clause × Nat}
    (hpair : (first, second) ∈ orderedPairs s.clauses.zipIdx) (h : P sweep) :
    P (sweep.visitFor tries first second) := by
  obtain ⟨hij, hi, hj⟩ := mem_orderedPairs_zipIdx.1 hpair
  unfold Sweep.visitFor
  dsimp only
  split
  · exact h
  · refine List.foldlRecOn _ _ (check sweep _ _ _ _ hij hi hj h) fun sweep hs r hr => ?_
    exact offer sweep _ _ _ _ r hij hi hj (List.mem_of_mem_take hr) hs

theorem sweepAt_preserves (start : P { known := s.clauses, checked := s.checked })
    (pairs tries : Nat) : P (s.sweepAt pairs tries) := by
  have hdone : P (((orderedPairs s.clauses.zipIdx).take pairs).foldl
      (fun sweep pair => sweep.visit pair.1 pair.2)
      { known := s.clauses, checked := s.checked }) := by
    refine List.foldlRecOn _ _ start fun sweep hs pair hpair => ?_
    rw [Sweep.visit_eq_visitFor]
    exact visitFor_preserves check offer _ (List.mem_of_mem_take hpair) hs
  unfold sweepAt
  dsimp only
  split
  · exact hdone
  · next first second hnext =>
      exact visitFor_preserves check offer tries (List.mem_of_getElem? hnext) hdone

theorem sweep_preserves (start : P { known := s.clauses, checked := s.checked }) : P s.sweep := by
  rw [sweep_eq_sweepAt]
  exact sweepAt_preserves check offer start _ _

end Induction

end ProofState

end Resolution
