import Resolution.Proofs.Resolvents
import Resolution.Search.Run

/-!
# How clauses and derivation grow

Every call of the search continues the growth of the clauses from the input. So whatever calls have
been made, the input stands in front, every further clause has its step, and every step is the
record of a resolvent that was new when it was accepted.
-/

namespace Resolution

namespace ProofState

/-- The clauses are the input followed by the resolvents of the derivation, which grows from the
input. -/
structure GrownFrom (input : List Clause) (s : ProofState) : Prop where
  numInput : s.numInput = input.length
  clauses : s.clauses = input ++ s.derivation.map Step.resolvent
  growth : Growth input s.derivation

theorem grownFrom_ofClauses (input : List Clause) : (ofClauses input).GrownFrom input :=
  ⟨rfl, by simp [ofClauses], .nil⟩

theorem GrownFrom.pass {input : List Clause} {s : ProofState} (h : s.GrownFrom input) :
    s.pass.state.GrownFrom input := by
  have hsteps := s.grownFrom_sweep.growth
  rw [h.clauses] at hsteps
  refine ⟨h.numInput, ?_, h.growth.append hsteps⟩
  change s.clauses ++ _ = input ++ (s.derivation ++ _).map Step.resolvent
  rw [h.clauses, List.map_append, List.append_assoc]

theorem GrownFrom.stop {input : List Clause} {s : ProofState} (h : s.GrownFrom input) :
    s.stop.GrownFrom input :=
  ⟨h.numInput, h.clauses, h.growth⟩

theorem GrownFrom.run {input : List Clause} {s : ProofState} (h : s.GrownFrom input)
    (limit : Option Int) : (s.run limit).state.GrownFrom input :=
  run_preserves (fun _ _ h => h.pass) (fun _ _ h => h.stop) h limit

theorem GrownFrom.after {input : List Clause} {s : ProofState} (h : s.GrownFrom input)
    (calls : List Call) : (s.after calls).GrownFrom input :=
  after_preserves (fun _ h => h.pass) (fun _ h => h.stop) h calls

/-- A later state of the same attempt: clauses, steps and tried pairs are only added. -/
structure Prolongs (s t : ProofState) : Prop where
  clauses : s.clauses <+: t.clauses
  derivation : s.derivation <+: t.derivation
  checked : ∀ p ∈ s.checked, p ∈ t.checked

theorem Prolongs.refl (s : ProofState) : s.Prolongs s :=
  ⟨List.prefix_rfl, List.prefix_rfl, fun _ h => h⟩

theorem Prolongs.trans {s t u : ProofState} (h : s.Prolongs t) (h' : t.Prolongs u) :
    s.Prolongs u :=
  ⟨h.clauses.trans h'.clauses, h.derivation.trans h'.derivation,
    fun p hp => h'.checked p (h.checked p hp)⟩

theorem checked_subset_sweep (s : ProofState) : ∀ p ∈ s.checked, p ∈ s.sweep.checked := by
  refine sweep_preserves (P := fun sweep => ∀ p ∈ s.checked, p ∈ sweep.checked) ?_ ?_ ?_
  · intro sweep i j c d _ _ _ h p hp
    exact mem_insert_pair.2 (.inr (h p hp))
  · intro sweep i j c d r _ _ _ _ h
    rcases sweep.offer_cases i j r with ⟨-, log, e⟩ | ⟨-, -, -, log, e⟩
    · rwa [e]
    · rwa [e]
  · exact fun p hp => hp

theorem prolongs_pass (s : ProofState) : s.Prolongs s.pass.state :=
  ⟨List.prefix_append _ _, List.prefix_append _ _, s.checked_subset_sweep⟩

theorem prolongs_perform (s : ProofState) (call : Call) : s.Prolongs (call.perform s) :=
  call.perform_preserves (fun t h => h.trans t.prolongs_pass)
    (fun _ h => ⟨h.clauses, h.derivation, h.checked⟩) (Prolongs.refl s)

end ProofState

/-- The record of the clause at a place: the clause is stored there and differs from all before it,
the two parents, numbered from 1, come before it, and resolving them gives this very entry. -/
structure Step.AcceptedAt (cs : List Clause) (place : Nat) (step : Step) : Prop where
  stored : cs[place]? = some step.resolvent
  nodup : step.resolvent.literals.Nodup
  not_tautology : step.resolvent.isTautology = false
  new : ∀ k < place, ∀ c, cs[k]? = some c → step.resolvent.same c = false
  parents : ∃ (p q : Nat) (c d : Clause) (l m : Literal),
    step.parents = [(p : Int), (q : Int)] ∧ 1 ≤ p ∧ p < q ∧ q < place + 1 ∧
      cs[p - 1]? = some c ∧ cs[q - 1]? = some d ∧ step.literals = [l, m] ∧
      (step.resolvent, l, m, step.substitution) ∈ (c.resolve d).map Resolvent.entry ∧
      ∃ k, step.substitution.applyLiteral l = .ok k ∧
        step.substitution.applyLiteral m.negate = .ok k

theorem Growth.acceptedAt {cs : List Clause} {steps : List Step} (h : Growth cs steps) {i : Nat}
    {step : Step} (hi : steps[i]? = some step) :
    step.AcceptedAt (cs ++ steps.map Step.resolvent) (cs.length + i) := by
  have hext := h.extends_at hi
  have hbefore : (cs ++ steps.map Step.resolvent).take (cs.length + i) =
      cs ++ (steps.take i).map Step.resolvent := by
    rw [List.take_length_add_append, List.map_take]
  refine ⟨?_, hext.nodup, hext.not_tautology, fun k hk c hc => ?_, ?_⟩
  · rw [List.getElem?_append_right (Nat.le_add_right _ _), Nat.add_sub_cancel_left,
      List.getElem?_map, hi]
    rfl
  · refine hext.new c ?_
    rw [← hbefore]
    exact List.mem_of_getElem? ((List.getElem?_take_of_lt hk).trans hc)
  · obtain ⟨p, q, c, d, hpq, hqlt, hp, hq, r, hr, rfl⟩ := h.origin_at hi
    refine ⟨p + 1, q + 1, c, d, r.left, r.right, rfl, by omega, by omega, by omega, hp, hq, rfl,
      List.mem_map_of_mem hr, r.unifier.applyLiteral r.left, ?_, ?_⟩
    · exact r.unifier.toSubstitution_applyLiteral r.left
    · rw [Resolvent.complementary hr, ← Unifier.applyLiteral_negate]
      exact r.unifier.toSubstitution_applyLiteral r.right.negate

/-- Whatever calls have been made, also after the search has halted, the input stands unchanged in
front, every further clause has its step and every step its record; and every call only adds. -/
theorem ProofState.acceptance_after (input : List Clause) (calls : List Call) :
    let s := (ofClauses input).after calls
    s.numInput = input.length ∧ s.clauses.take input.length = input ∧
      s.clauses.length = input.length + s.derivation.length ∧
      (∀ (i : Nat) (step : Step), s.derivation[i]? = some step →
        step.AcceptedAt s.clauses (input.length + i)) ∧
      ∀ call : Call, s.Prolongs (call.perform s) := by
  intro s
  have h : s.GrownFrom input := (grownFrom_ofClauses input).after calls
  refine ⟨h.numInput, ?_, ?_, ?_, s.prolongs_perform⟩
  · rw [h.clauses, List.take_left]
  · rw [h.clauses, List.length_append, List.length_map]
  · intro i step hi
    rw [h.clauses]
    exact h.growth.acceptedAt hi

/-- The first pass records a step, the second saturates and the third is made after the halt. -/
theorem ProofState.acceptance_after_halt :
    let s := (ofClauses [⟨[⟨"P", [.var "x"], false⟩]⟩,
      ⟨[⟨"P", [.const "a"], true⟩, ⟨"Q", [.var "x"], false⟩]⟩]).after [.pass, .pass, .pass]
    ∃ step, s.derivation[0]? = some step ∧ step.AcceptedAt s.clauses 2 := by
  intro s
  have hsome : s.derivation[0]?.isSome = true := by
    subst s
    decide +kernel
  obtain ⟨step, h⟩ := Option.isSome_iff_exists.1 hsome
  exact ⟨step, h, (acceptance_after _ _).2.2.2.1 0 step h⟩

end Resolution
