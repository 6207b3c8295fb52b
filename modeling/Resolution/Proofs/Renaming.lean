import Mathlib.Data.List.Perm.Basic
import Resolution.Proofs.Generality
import Resolution.Search.Run

/-!
# Renaming

The search compares names and never looks into them. So a renaming that keeps different names apart
commutes with everything it does: with following chains and unifying, with resolving, and with every
turn of the loops of a pass. A run on renamed clauses is the renamed run.
-/

namespace Resolution

/-- New names for predicates, constants and variables. Different names stay different; that a
constant and a variable may get the same name does not matter. -/
structure Renaming where
  predicate : String → String
  constant : String → String
  var : String → String
  predicate_injective : Function.Injective predicate
  constant_injective : Function.Injective constant
  var_injective : Function.Injective var

theorem eraseDups_map {α β : Type} [BEq α] [LawfulBEq α] [BEq β] [LawfulBEq β] {f : α → β}
    (hf : Function.Injective f) (l : List α) : (l.map f).eraseDups = l.eraseDups.map f := by
  generalize hn : l.length = n
  induction n using Nat.strongRecOn generalizing l with
  | _ n ih =>
      cases l with
      | nil => rfl
      | cons a l =>
          have hfilter : (l.map f).filter (fun b => !b == f a) =
              (l.filter fun b => !b == a).map f := by
            rw [List.filter_map]
            congr 2
            funext b
            simp [hf.beq_eq]
          have hlt : (l.filter fun b => !b == a).length < n := by
            have := List.length_filter_le (fun b => !b == a) l
            simp only [List.length_cons] at hn
            omega
          rw [List.map_cons, List.eraseDups_cons, hfilter, ih _ hlt _ rfl, List.eraseDups_cons,
            List.map_cons]

namespace Renaming

variable (ρ : Renaming)

def term : Term → Term
  | .var x => .var (ρ.var x)
  | .const a => .const (ρ.constant a)

def literal (l : Literal) : Literal :=
  { l with name := ρ.predicate l.name, args := l.args.map ρ.term }

def clause (c : Clause) : Clause := ⟨c.literals.map ρ.literal⟩

theorem term_injective : Function.Injective ρ.term := by
  intro s t h
  cases s with
  | var x =>
      cases t with
      | var y => exact congrArg Term.var (ρ.var_injective (Term.var.inj h))
      | const b => cases h
  | const a =>
      cases t with
      | var y => cases h
      | const b => exact congrArg Term.const (ρ.constant_injective (Term.const.inj h))

theorem literal_injective : Function.Injective ρ.literal := by
  intro l m h
  cases l
  cases m
  simp only [literal, Literal.mk.injEq] at h ⊢
  exact ⟨ρ.predicate_injective h.1, List.map_injective_iff.2 ρ.term_injective h.2.1, h.2.2⟩

@[simp] theorem negate_literal (l : Literal) : (ρ.literal l).negate = ρ.literal l.negate := rfl

@[simp] theorem isEmpty_clause (c : Clause) : (ρ.clause c).isEmpty = c.isEmpty := by
  simp [clause, Clause.isEmpty]

@[simp] theorem isTautology_clause (c : Clause) : (ρ.clause c).isTautology = c.isTautology := by
  rw [Bool.eq_iff_iff, Clause.isTautology_iff, Clause.isTautology_iff]
  simp [clause, ρ.literal_injective.eq_iff]

@[simp] theorem same_clause (c d : Clause) : (ρ.clause c).same (ρ.clause d) = c.same d := by
  rw [Bool.eq_iff_iff, Clause.same_iff, Clause.same_iff]
  exact List.map_perm_map_iff ρ.literal_injective

def binding (b : String × Term) : String × Term := (ρ.var b.1, ρ.term b.2)

/-- Both sides of every binding are renamed, and the order is kept. -/
def substitution (σ : Substitution) : Substitution where
  bindings := σ.bindings.map ρ.binding
  nodup_keys := by
    have hkeys : (σ.bindings.map ρ.binding).map Prod.fst = (σ.bindings.map Prod.fst).map ρ.var := by
      rw [List.map_map, List.map_map]
      rfl
    rw [hkeys]
    exact σ.nodup_keys.map ρ.var_injective

@[simp] theorem size_substitution (σ : Substitution) : (ρ.substitution σ).size = σ.size :=
  List.length_map _

theorem lookup_map_binding (l : List (String × Term)) (x : String) :
    (l.map ρ.binding).lookup (ρ.var x) = (l.lookup x).map ρ.term := by
  induction l with
  | nil => rfl
  | cons b l ih =>
      obtain ⟨y, t⟩ := b
      by_cases h : x = y
      · simp [binding, h]
      · have h' : ρ.var x ≠ ρ.var y := ρ.var_injective.ne h
        simp [binding, List.lookup_cons, beq_eq_false_iff_ne.2 h, beq_eq_false_iff_ne.2 h', ih]

theorem insertBinding_map_binding (x : String) (t : Term) (l : List (String × Term)) :
    Substitution.insertBinding (ρ.var x) (ρ.term t) (l.map ρ.binding) =
      (Substitution.insertBinding x t l).map ρ.binding := by
  induction l with
  | nil => rfl
  | cons b l ih =>
      by_cases h : b.1 = x
      · simp [Substitution.insertBinding, binding, h]
      · have h' : ρ.var b.1 ≠ ρ.var x := ρ.var_injective.ne h
        simp [Substitution.insertBinding, binding, h, h', ← ih]

@[simp] theorem substitution_insert (σ : Substitution) (x : String) (t : Term) :
    ρ.substitution (σ.insert x t) = (ρ.substitution σ).insert (ρ.var x) (ρ.term t) :=
  Substitution.ext (ρ.insertBinding_map_binding x t σ.bindings).symm

@[simp] theorem next?_substitution (σ : Substitution) (t : Term) :
    (ρ.substitution σ).next? (ρ.term t) = (σ.next? t).map ρ.term := by
  cases t with
  | var x => exact ρ.lookup_map_binding σ.bindings x
  | const a => rfl

theorem hop_substitution (σ : Substitution) (n : Nat) (t : Term) :
    (ρ.substitution σ).hop n (ρ.term t) = (σ.hop n t).map ρ.term := by
  induction n generalizing t with
  | zero => rfl
  | succ n ih =>
      rw [Substitution.hop, Substitution.hop, next?_substitution]
      cases σ.next? t with
      | none => rfl
      | some u => exact ih u

theorem follow_substitution {σ : Substitution} {s t : Term} (h : σ.follow s = .ok t) :
    (ρ.substitution σ).follow (ρ.term s) = .ok (ρ.term t) := by
  obtain ⟨n, hn, hhop, hend⟩ := Substitution.followFor_eq_ok_iff.1 h
  refine Substitution.followFor_eq_ok_iff.2 ⟨n, ?_, ?_, ?_⟩
  · rwa [size_substitution]
  · rw [hop_substitution, hhop, Option.map_some]
  · rw [next?_substitution, hend, Option.map_none]

/-- Only renamed variables are bound. -/
theorem exists_of_next?_substitution {σ : Substitution} {s t : Term}
    (h : (ρ.substitution σ).next? s = some t) : ∃ x, s = ρ.term (.var x) := by
  obtain ⟨y, hy, rfl⟩ := Substitution.exists_key_of_next? h
  simp only [Substitution.keys, substitution, List.map_map, List.mem_map] at hy
  obtain ⟨b, -, rfl⟩ := hy
  exact ⟨b.1, rfl⟩

theorem terminates_substitution {σ : Substitution} (h : σ.Terminates) :
    (ρ.substitution σ).Terminates := by
  intro t
  cases hnext : (ρ.substitution σ).next? t with
  | none => exact ⟨t, Substitution.followFor_of_next?_none hnext _⟩
  | some u =>
      obtain ⟨x, rfl⟩ := ρ.exists_of_next?_substitution hnext
      obtain ⟨v, hv⟩ := h (.var x)
      exact ⟨ρ.term v, ρ.follow_substitution hv⟩

/-- What unification answers, renamed. -/
def answer (r : Except CyclicChain (Option Substitution)) :
    Except CyclicChain (Option Substitution) :=
  r.map (Option.map ρ.substitution)

theorem unify_substitution {σ : Substitution} (h : σ.Terminates) (s t : Term) :
    (ρ.substitution σ).unify (ρ.term s) (ρ.term t) = ρ.answer (σ.unify s t) := by
  obtain ⟨a, ha⟩ := h s
  obtain ⟨b, hb⟩ := h t
  simp only [Substitution.unify, ha, hb, ρ.follow_substitution ha, ρ.follow_substitution hb, bind,
    Except.bind, pure, Except.pure, ρ.term_injective.eq_iff]
  by_cases hab : a = b
  · simp [hab, answer, Except.map]
  · rw [if_neg hab, if_neg hab]
    cases a with
    | var x => simp [term, answer, Except.map]
    | const c =>
        cases b with
        | var y => simp [term, answer, Except.map]
        | const d => rfl

theorem unifyArgs_substitution {σ : Substitution} (h : σ.Terminates) (ss ts : List Term) :
    (ρ.substitution σ).unifyArgs (ss.map ρ.term) (ts.map ρ.term) =
      ρ.answer (σ.unifyArgs ss ts) := by
  induction ss generalizing σ ts with
  | nil => rfl
  | cons s ss ih =>
      cases ts with
      | nil => rfl
      | cons t ts =>
          simp only [List.map_cons, Substitution.unifyArgs, ρ.unify_substitution h]
          cases hu : σ.unify s t with
          | error e => rfl
          | ok r =>
              cases r with
              | none => rfl
              | some τ => exact ih (h.unify hu) ts

theorem unifyLiterals_literal (l m : Literal) :
    Substitution.unifyLiterals ∅ (ρ.literal l) (ρ.literal m) =
      ρ.answer (Substitution.unifyLiterals ∅ l m) := by
  have hsymbol : (ρ.literal l).name = (ρ.literal m).name ∧
      (ρ.literal l).arity = (ρ.literal m).arity ↔ l.name = m.name ∧ l.arity = m.arity := by
    simp [literal, Literal.arity, ρ.predicate_injective.eq_iff]
  unfold Substitution.unifyLiterals
  simp only [hsymbol]
  split
  · exact ρ.unifyArgs_substitution Substitution.terminates_empty l.args m.args
  · rfl

def unifier (u : Unifier) : Unifier :=
  ⟨ρ.substitution u.toSubstitution, ρ.terminates_substitution u.terminates⟩

theorem ofLiterals_literal (l m : Literal) :
    Unifier.ofLiterals (ρ.literal l) (ρ.literal m) =
      (Unifier.ofLiterals l m).map ρ.unifier := by
  cases h : Unifier.ofLiterals l m with
  | none =>
      refine Unifier.ofLiterals_eq_none_iff.2 ?_
      rw [unifyLiterals_literal, Unifier.ofLiterals_eq_none_iff.1 h]
      rfl
  | some u =>
      refine Unifier.ofLiterals_eq_some_iff.2 ?_
      rw [unifyLiterals_literal, Unifier.ofLiterals_eq_some_iff.1 h]
      rfl

@[simp] theorem apply_unifier (u : Unifier) (t : Term) :
    (ρ.unifier u).apply (ρ.term t) = ρ.term (u.apply t) := by
  have h := ρ.follow_substitution (u.follow_eq t)
  exact Except.ok.inj (((ρ.unifier u).follow_eq _).symm.trans h)

@[simp] theorem applyLiteral_unifier (u : Unifier) (l : Literal) :
    (ρ.unifier u).applyLiteral (ρ.literal l) = ρ.literal (u.applyLiteral l) := by
  simp [Unifier.applyLiteral, literal, Function.comp_def]

@[simp] theorem applyClause_unifier (u : Unifier) (c : Clause) :
    (ρ.unifier u).applyClause (ρ.clause c) = ρ.clause (u.applyClause c) := by
  simp [Unifier.applyClause, clause, Function.comp_def]

def resolvent (r : Resolvent) : Resolvent where
  clause := ρ.clause r.clause
  left := ρ.literal r.left
  right := ρ.literal r.right
  unifier := ρ.unifier r.unifier

theorem remaining_clause (c : Clause) (u : Unifier) (l : Literal) :
    (ρ.clause c).remaining (ρ.unifier u) (ρ.literal l) = (c.remaining u l).map ρ.literal := by
  rw [Clause.remaining, applyClause_unifier, applyLiteral_unifier, clause, List.filter_map,
    Clause.remaining]
  congr 2
  funext k
  simp [ρ.literal_injective.eq_iff]

theorem resolveOn?_clause (c d : Clause) (l m : Literal) :
    (ρ.clause c).resolveOn? (ρ.clause d) (ρ.literal l) (ρ.literal m) =
      (c.resolveOn? d l m).map ρ.resolvent := by
  have hcondition : (ρ.literal l).name = (ρ.literal m).name ∧
      (ρ.literal l).negated ≠ (ρ.literal m).negated ↔
        l.name = m.name ∧ l.negated ≠ m.negated := by
    simp [literal, ρ.predicate_injective.eq_iff]
  unfold Clause.resolveOn?
  simp only [hcondition]
  split
  · rw [negate_literal, ofLiterals_literal, Option.map_map, Option.map_map]
    congr 1
    funext u
    simp only [Function.comp_apply, remaining_clause, ← List.map_append,
      eraseDups_map ρ.literal_injective]
    rfl
  · rfl

theorem resolve_clause (c d : Clause) :
    (ρ.clause c).resolve (ρ.clause d) = (c.resolve d).map ρ.resolvent := by
  simp only [Clause.resolve, clause, List.flatMap_map, List.filterMap_map, List.map_flatMap,
    List.map_filterMap]
  congr 1
  funext l
  congr 1
  funext m
  exact ρ.resolveOn?_clause c d l m

def step (step : Step) : Step where
  resolvent := ρ.clause step.resolvent
  parents := step.parents
  literals := step.literals.map ρ.literal
  substitution := ρ.substitution step.substitution

def event : Event → Event
  | .passStarted number size => .passStarted number size
  | .tautology c => .tautology (ρ.clause c)
  | .accepted c left right => .accepted (ρ.clause c) left right
  | .passEnded new size => .passEnded new size

def sweep (sweep : Sweep) : Sweep where
  known := sweep.known.map ρ.clause
  checked := sweep.checked
  accepted := sweep.accepted.map ρ.step
  log := sweep.log.map ρ.event
  refuted := sweep.refuted

/-- The clauses and the derivation are renamed, the rest is kept. -/
def state (s : ProofState) : ProofState :=
  { s with clauses := s.clauses.map ρ.clause, derivation := s.derivation.map ρ.step }

def run (r : Run) : Run := ⟨ρ.state r.state, r.log.map ρ.event⟩

def entry (e : Entry) : Entry :=
  (ρ.clause e.1, ρ.literal e.2.1, ρ.literal e.2.2.1, ρ.substitution e.2.2.2)

theorem step_entry (i j : Nat) (e : Entry) : (ρ.entry e).step i j = ρ.step (e.step i j) := rfl

theorem consider_sweep (i j : Nat) (sweep : Sweep) (e : Entry) :
    (ρ.sweep sweep).consider i j (ρ.entry e) = ρ.sweep (sweep.consider i j e) := by
  have hknown : (ρ.sweep sweep).known.any (ρ.entry e).1.same = sweep.known.any e.1.same := by
    simp [Renaming.sweep, entry, List.any_map, Function.comp_def]
  have htautology : (ρ.entry e).1.isTautology = e.1.isTautology := ρ.isTautology_clause e.1
  have hrefuted : (ρ.sweep sweep).refuted = sweep.refuted := rfl
  unfold Sweep.consider
  rw [hknown, htautology, hrefuted, step_entry]
  split
  · rfl
  · split
    · simp [Renaming.sweep, entry, event]
    · split
      · rfl
      · simp [Renaming.sweep, entry, event]

theorem offer_sweep (i j : Nat) (sweep : Sweep) (r : Resolvent) :
    (ρ.sweep sweep).offer i j (ρ.resolvent r) = ρ.sweep (sweep.offer i j r) :=
  ρ.consider_sweep i j sweep r.entry

theorem foldl_offer_sweep (i j : Nat) (rs : List Resolvent) (sweep : Sweep) :
    (rs.map ρ.resolvent).foldl (Sweep.offer i j) (ρ.sweep sweep) =
      ρ.sweep (rs.foldl (Sweep.offer i j) sweep) := by
  induction rs generalizing sweep with
  | nil => rfl
  | cons r rs ih => rw [List.map_cons, List.foldl_cons, List.foldl_cons, offer_sweep, ih]

/-- A clause with its place among the clauses. -/
def place (entry : Clause × Nat) : Clause × Nat := (ρ.clause entry.1, entry.2)

theorem visit_sweep (sweep : Sweep) (first second : Clause × Nat) :
    (ρ.sweep sweep).visit (ρ.place first) (ρ.place second) =
      ρ.sweep (sweep.visit first second) := by
  have hchecked : (ρ.sweep sweep).checked = sweep.checked := rfl
  have hrefuted : (ρ.sweep sweep).refuted = sweep.refuted := rfl
  unfold Sweep.visit
  dsimp only [place]
  rw [hchecked, hrefuted]
  split
  · rfl
  · rw [resolve_clause]
    exact ρ.foldl_offer_sweep first.2 second.2 _
      { sweep with checked := sweep.checked.insert (↑first.2, ↑second.2) }

theorem foldl_visit_sweep (pairs : List ((Clause × Nat) × Clause × Nat)) (sweep : Sweep) :
    (pairs.map (Prod.map ρ.place ρ.place)).foldl (fun sweep pair => sweep.visit pair.1 pair.2)
        (ρ.sweep sweep) =
      ρ.sweep (pairs.foldl (fun sweep pair => sweep.visit pair.1 pair.2) sweep) := by
  induction pairs generalizing sweep with
  | nil => rfl
  | cons pair pairs ih =>
      rw [List.map_cons, List.foldl_cons, List.foldl_cons, ← ih]
      congr 1
      exact ρ.visit_sweep sweep pair.1 pair.2

theorem orderedPairs_map {α β : Type} (f : α → β) (l : List α) :
    orderedPairs (l.map f) = (orderedPairs l).map (Prod.map f f) := by
  induction l with
  | nil => rfl
  | cons a l ih => simp [orderedPairs, ih]

theorem sweep_state (s : ProofState) : (ρ.state s).sweep = ρ.sweep s.sweep := by
  have hplaces : (ρ.state s).clauses.zipIdx = s.clauses.zipIdx.map ρ.place := List.zipIdx_map
  have hstart : ({ known := (ρ.state s).clauses, checked := (ρ.state s).checked } : Sweep) =
      ρ.sweep { known := s.clauses, checked := s.checked } := by
    simp [Renaming.sweep, state]
  rw [ProofState.sweep, hplaces, orderedPairs_map, hstart]
  exact ρ.foldl_visit_sweep _ _

theorem concluded_state (s : ProofState) (sweep : Sweep) :
    (ρ.state s).concluded (ρ.sweep sweep) = ρ.run (s.concluded sweep) := by
  cases hrefuted : sweep.refuted with
  | true =>
      simp [ProofState.concluded, ProofState.finish, Renaming.sweep, run, state, step, event,
        Function.comp_def, hrefuted]
  | false =>
      simp [ProofState.concluded, ProofState.finish, Renaming.sweep, run, state, step, event,
        Function.comp_def, hrefuted]

theorem pass_state (s : ProofState) : (ρ.state s).pass = ρ.run s.pass := by
  rw [ProofState.pass, sweep_state, concluded_state, ProofState.pass]

/-- A run on renamed clauses is the renamed run, its log included. -/
theorem run_state (limit : Option Int) (s : ProofState) :
    (ρ.state s).run limit = ρ.run (s.run limit) := by
  induction s using ProofState.run.induct limit with
  | case1 s hhalted =>
      have hrenamed : (ρ.state s).halted = true := hhalted
      rw [ProofState.run_of_halted limit hhalted, ProofState.run_of_halted limit hrenamed]
      rfl
  | case2 s hhalted hlimit =>
      have hopen : s.halted = false := by simpa using hhalted
      have hrenamed : (ρ.state s).halted = false ∧ (ρ.state s).atLimit limit = true :=
        ⟨hopen, hlimit⟩
      rw [ProofState.run_of_atLimit hopen hlimit,
        ProofState.run_of_atLimit hrenamed.1 hrenamed.2]
      rfl
  | case3 s hhalted hlimit first ih =>
      have hopen : s.halted = false := by simpa using hhalted
      have hgo : s.atLimit limit = false := by simpa using hlimit
      have hrenamed : (ρ.state s).halted = false ∧ (ρ.state s).atLimit limit = false :=
        ⟨hopen, hgo⟩
      have hfirst : (ρ.run s.pass).state = ρ.state first.state := rfl
      rw [ProofState.run_of_running hopen hgo,
        ProofState.run_of_running hrenamed.1 hrenamed.2, pass_state, hfirst, ih]
      simp [run, first]

/-- Renaming the clauses and then searching gives the state that searching and then renaming gives.
The renamed state has the same parents, tried pairs and passes, and it has halted for the same
reason. -/
theorem search_commutes (input : List Clause) (limit : Option Int) :
    ((ProofState.ofClauses (input.map ρ.clause)).run limit).state =
      ρ.state ((ProofState.ofClauses input).run limit).state := by
  have hstart : ProofState.ofClauses (input.map ρ.clause) =
      ρ.state (ProofState.ofClauses input) := by
    simp [ProofState.ofClauses, state]
  rw [hstart, run_state]
  rfl

end Renaming

end Resolution
