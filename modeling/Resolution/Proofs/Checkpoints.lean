import Resolution.Checkpoint
import Resolution.Proofs.Fallible

/-!
# Reading a checkpoint back

Whatever a checkpoint holds is read as it was written: the kind of a term, the order of the bindings
of a substitution, the pairs tried. A reader looks up one field after another, so a state is read
from every object that holds its fields, whatever else the object holds and in whatever order.
-/

namespace Resolution

namespace Substitution

/-- New variables are bound behind the others, in the order of the list. -/
theorem bindings_foldl_insert {σ : Substitution} {l : List (String × Term)}
    (h : ((σ.bindings ++ l).map Prod.fst).Nodup) :
    (l.foldl (fun σ b => σ.insert b.1 b.2) σ).bindings = σ.bindings ++ l := by
  induction l generalizing σ with
  | nil => simp
  | cons b l ih =>
      have hunbound : σ.get? b.1 = none := by
        refine List.lookup_eq_none_iff.2 fun c hc => bne_iff_ne.2 fun heq => ?_
        rw [List.map_append, List.nodup_append] at h
        exact h.2.2 c.1 (List.mem_map_of_mem hc) b.1 (by simp) heq.symm
      have hinsert : (σ.insert b.1 b.2).bindings = σ.bindings ++ [b] :=
        bindings_insert_of_unbound b.2 hunbound
      rw [List.foldl_cons, ih, hinsert, List.append_assoc]
      · rfl
      · rw [hinsert, List.append_assoc]
        exact h

theorem ofList_bindings (σ : Substitution) : ofList σ.bindings = σ := by
  apply Substitution.ext
  exact bindings_foldl_insert (σ := ∅) σ.nodup_keys

end Substitution

theorem PairSet.ofList_toList (pairs : PairSet) :
    Std.ExtTreeSet.ofList pairs.toList lexOrd.compare = pairs := by
  apply Std.ExtTreeSet.ext_mem
  intro p
  rw [Std.ExtTreeSet.mem_ofList, List.contains_iff_mem, Std.ExtTreeSet.mem_toList]

namespace Checkpoint

section

variable {α : Type} {read : Json → Decoder α}

theorem toListOf_map {write : α → Json} (h : ∀ a, read (write a) = .ok a) (l : List α) :
    toListOf read (.arr (l.map write)) = .ok l := by
  refine Fallible.mapM_eq_ok.2 ?_
  induction l with
  | nil => exact .nil
  | cons a l ih => exact .cons (h a) ih

theorem required_eq_ok {key : String} {j value : Json} {a : α} (h : j.get? key = some value)
    (hread : read value = .ok a) : required key read j = .ok a := by
  rw [required, h]
  exact hread

theorem optional_eq_ok {key : String} {otherwise : α} {j value : Json} {a : α}
    (h : j.get? key = some value) (hread : read value = .ok a) :
    optional key otherwise read j = .ok a := by
  rw [optional, h]
  exact hread

end

theorem toTerm_ofTerm (t : Term) : toTerm (ofTerm t) = .ok t := by
  cases t <;> rfl

theorem toLiteral_ofLiteral (l : Literal) : toLiteral (ofLiteral l) = .ok l := by
  refine Fallible.bind_eq_ok.2 ⟨l.name, rfl, ?_⟩
  refine Fallible.bind_eq_ok.2 ⟨l.args, required_eq_ok rfl (toListOf_map toTerm_ofTerm _), ?_⟩
  exact Fallible.bind_eq_ok.2 ⟨l.negated, rfl, rfl⟩

theorem toListOf_ofLiterals (ls : List Literal) : toListOf toLiteral (ofLiterals ls) = .ok ls :=
  toListOf_map toLiteral_ofLiteral ls

theorem toClause_ofClause (c : Clause) : toClause (ofClause c) = .ok c := by
  rw [toClause, ofClause, toListOf_ofLiterals]
  rfl

theorem toListOf_ofInts (ns : List Int) : toListOf toInt (.ofInts ns) = .ok ns := by
  have hint : ∀ n : Int, toInt (.int n) = .ok n := fun _ => rfl
  exact toListOf_map hint ns

theorem toBinding_ofBinding (b : String × Term) : toBinding (ofBinding b) = .ok b := by
  refine Fallible.bind_eq_ok.2 ⟨[.str b.1, ofTerm b.2], rfl, ?_⟩
  refine Fallible.bind_eq_ok.2 ⟨b.1, rfl, ?_⟩
  exact Fallible.bind_eq_ok.2 ⟨b.2, toTerm_ofTerm b.2, rfl⟩

theorem toSubstitution_ofSubstitution (σ : Substitution) :
    toSubstitution (ofSubstitution σ) = .ok σ := by
  rw [toSubstitution, ofSubstitution, toListOf_map toBinding_ofBinding]
  exact congrArg Except.ok σ.ofList_bindings

theorem toStep_ofStep (step : Step) : toStep (ofStep step) = .ok step := by
  refine Fallible.bind_eq_ok.2 ⟨step.resolvent, required_eq_ok rfl (toClause_ofClause _), ?_⟩
  refine Fallible.bind_eq_ok.2 ⟨step.parents, required_eq_ok rfl (toListOf_ofInts _), ?_⟩
  refine Fallible.bind_eq_ok.2 ⟨step.literals, required_eq_ok rfl (toListOf_ofLiterals _), ?_⟩
  exact Fallible.bind_eq_ok.2
    ⟨step.substitution, required_eq_ok rfl (toSubstitution_ofSubstitution _), rfl⟩

theorem toPair_ofPair (p : Int × Int) : toPair (ofPair p) = .ok p :=
  Fallible.bind_eq_ok.2 ⟨[p.1, p.2], toListOf_ofInts _, rfl⟩

theorem toPairSet_toList (pairs : PairSet) :
    toPairSet (.arr (pairs.toList.map ofPair)) = .ok pairs := by
  rw [toPairSet, toListOf_map toPair_ofPair]
  exact congrArg Except.ok pairs.ofList_toList

/-- The object holds every field of the state under its key. -/
structure Records (s : ProofState) (j : Json) : Prop where
  clauses : j.get? "clauses" = some (.arr (s.clauses.map ofClause))
  derivation : j.get? "derivation" = some (.arr (s.derivation.map ofStep))
  checked : j.get? "checked_pairs" = some (.arr (s.checked.toList.map ofPair))
  numInput : j.get? "num_input" = some (.int s.numInput)
  passes : j.get? "passes" = some (.int s.passes)
  halted : j.get? "halted" = some (.bool s.halted)
  haltReason : j.get? "halt_reason" = some (.str s.haltReason)

theorem Records.toState {s : ProofState} {j : Json} (h : Records s j) : toState j = .ok s := by
  refine Fallible.bind_eq_ok.2 ⟨s.clauses,
    required_eq_ok h.clauses (toListOf_map toClause_ofClause _), ?_⟩
  refine Fallible.bind_eq_ok.2 ⟨s.derivation,
    required_eq_ok h.derivation (toListOf_map toStep_ofStep _), ?_⟩
  refine Fallible.bind_eq_ok.2 ⟨s.checked,
    optional_eq_ok h.checked (toPairSet_toList _), ?_⟩
  refine Fallible.bind_eq_ok.2 ⟨s.numInput, required_eq_ok h.numInput rfl, ?_⟩
  refine Fallible.bind_eq_ok.2 ⟨s.passes, optional_eq_ok h.passes rfl, ?_⟩
  refine Fallible.bind_eq_ok.2 ⟨s.halted, optional_eq_ok h.halted rfl, ?_⟩
  exact Fallible.bind_eq_ok.2 ⟨s.haltReason, optional_eq_ok h.haltReason rfl, rfl⟩

theorem records_override (s : ProofState) (halted : Bool) (haltReason : String) :
    Records { s with halted, haltReason }
      ((ofState s).override [("halted", .bool halted), ("halt_reason", .str haltReason)]) :=
  ⟨rfl, rfl, rfl, rfl, rfl, rfl, rfl⟩

end Checkpoint

end Resolution
