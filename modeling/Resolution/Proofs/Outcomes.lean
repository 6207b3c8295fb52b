import Resolution.Proofs.Coverage

/-!
# How a run ends

A pass refutes, saturates or leaves the search open, and records which. Along a run the record stays
true to the clauses: the reason of a refutation stands exactly when the empty clause was derived,
which is then the last clause, and the reason of saturation only when all pairs were tried and
nothing is missing.
-/

namespace Resolution

namespace ProofState

/-- The sweep is cut short exactly by an accepted empty clause. -/
theorem refuted_sweep_iff (s : ProofState) :
    s.sweep.refuted = true ↔
      ∃ step ∈ s.sweep.accepted.toList, step.resolvent.isEmpty = true := by
  refine sweep_preserves (P := fun sweep : Sweep => sweep.refuted = true ↔
    ∃ step ∈ sweep.accepted.toList, step.resolvent.isEmpty = true) ?_ ?_ ?_
  · intro sweep i j c d _ _ _ h
    exact h
  · intro sweep i j c d r _ _ _ _ h
    rcases sweep.offer_cases i j r with ⟨-, log, e⟩ | ⟨hrun, -, -, log, e⟩
    · rw [e]
      exact h
    · rw [e]
      have hnone : ¬∃ step ∈ sweep.accepted.toList, step.resolvent.isEmpty = true := by
        rw [← h, hrun]
        simp
      simp only [Array.toList_push, List.mem_append, List.mem_singleton]
      constructor
      · intro hempty
        exact ⟨r.step i j, .inr rfl, hempty⟩
      · rintro ⟨step, hstep | rfl, hempty⟩
        · exact absurd ⟨step, hstep, hempty⟩ hnone
        · exact hempty
  · simp

/-- All that a pass can record. -/
theorem pass_cases (s : ProofState) :
    s.sweep.refuted = true ∧ s.pass.state.halted = true ∧
        s.pass.state.haltReason = HaltReason.refuted ∨
      s.sweep.refuted = false ∧ s.sweep.accepted.toList = [] ∧ s.pass.state.halted = true ∧
        s.pass.state.haltReason = HaltReason.saturated ∨
      s.sweep.refuted = false ∧ s.sweep.accepted.toList ≠ [] ∧
        s.pass.state.halted = s.halted ∧ s.pass.state.haltReason = s.haltReason := by
  unfold pass concluded finish
  dsimp only
  cases hrefuted : s.sweep.refuted with
  | true => exact .inl ⟨rfl, by simp, by simp⟩
  | false =>
      cases s.sweep.accepted.toList with
      | nil => exact .inr (.inl ⟨rfl, rfl, by simp, by simp⟩)
      | cons step rest => exact .inr (.inr ⟨rfl, by simp, by simp, by simp⟩)

/-- A search that is open gives no reason; no reason is taken for another. -/
theorem reasons_distinct :
    "" ≠ HaltReason.refuted ∧ HaltReason.saturated ≠ HaltReason.refuted ∧
      HaltReason.passLimit ≠ HaltReason.refuted ∧ "" ≠ HaltReason.saturated ∧
      HaltReason.passLimit ≠ HaltReason.saturated := by
  decide

/-- The record of a run that started afresh is true to its clauses. -/
structure Honest (s : ProofState) : Prop where
  running : s.halted = false → s.haltReason = ""
  refuted : s.haltReason = HaltReason.refuted ↔
    ∃ step ∈ s.derivation, step.resolvent.isEmpty = true
  covered : s.haltReason ≠ HaltReason.refuted → s.Covered
  saturated : s.haltReason = HaltReason.saturated → s.AllTried

theorem honest_ofClauses (input : List Clause) : (ofClauses input).Honest where
  running _ := rfl
  refuted := by simp [ofClauses, HaltReason.refuted]
  covered _ := by
    intro p hp
    exact absurd hp (by simp [ofClauses])
  saturated h := absurd h reasons_distinct.2.2.2.1

theorem Honest.pass {s : ProofState} (h : s.Honest) (hopen : s.halted = false) :
    s.pass.state.Honest := by
  obtain ⟨hblank, hsat, -, hblank', -⟩ := reasons_distinct
  have hreason := h.running hopen
  have hcovered : s.Covered := h.covered (by rw [hreason]; exact hblank)
  have hnone : ¬∃ step ∈ s.derivation, step.resolvent.isEmpty = true := by
    rw [← h.refuted, hreason]
    exact hblank
  have hsteps : (∃ step ∈ s.pass.state.derivation, step.resolvent.isEmpty = true) ↔
      s.sweep.refuted = true := by
    rw [refuted_sweep_iff]
    change (∃ step ∈ s.derivation ++ _, _) ↔ _
    constructor
    · rintro ⟨step, hstep, hempty⟩
      rcases List.mem_append.1 hstep with hstep | hstep
      · exact absurd ⟨step, hstep, hempty⟩ hnone
      · exact ⟨step, hstep, hempty⟩
    · rintro ⟨step, hstep, hempty⟩
      exact ⟨step, List.mem_append_right _ hstep, hempty⟩
  rcases s.pass_cases with ⟨href, hhalted, hr⟩ | ⟨href, hnil, hhalted, hr⟩ | ⟨href, -, hhalted, hr⟩
  · refine ⟨fun hf => ?_, ?_, fun hne => absurd hr hne, fun hs => ?_⟩
    · rw [hhalted] at hf
      cases hf
    · rw [hsteps, hr, href]
      simp
    · rw [hr] at hs
      exact absurd hs.symm hsat
  · refine ⟨fun hf => ?_, ?_, fun _ => hcovered.pass href, fun _ i j hij hj => ?_⟩
    · rw [hhalted] at hf
      cases hf
    · rw [hsteps, hr, href]
      simpa using hsat
    · refine s.mem_checked_sweep href hij ?_
      change j < (s.clauses ++ s.sweep.accepted.toList.map Step.resolvent).length at hj
      rwa [hnil, List.map_nil, List.append_nil] at hj
  · rw [hreason] at hr
    refine ⟨fun _ => hr, ?_, fun _ => hcovered.pass href, fun hs => ?_⟩
    · rw [hsteps, hr, href]
      simpa using hblank
    · rw [hr] at hs
      exact absurd hs hblank'

theorem Honest.stop {s : ProofState} (h : s.Honest) (hopen : s.halted = false) :
    s.stop.Honest := by
  obtain ⟨hblank, -, hlimit, -, hlimit'⟩ := reasons_distinct
  have hreason := h.running hopen
  have hcovered : s.Covered := h.covered (by rw [hreason]; exact hblank)
  refine ⟨(fun hf => by cases hf), ⟨fun hr => absurd hr hlimit, fun hstep => ?_⟩, fun _ => hcovered,
    fun hs => absurd hs hlimit'⟩
  exact absurd (hreason.symm.trans (h.refuted.2 hstep)) hblank

theorem Honest.run {s : ProofState} (h : s.Honest) (limit : Option Int) :
    (s.run limit).state.Honest :=
  run_preserves (fun _ hopen h => h.pass hopen) (fun _ hopen h => h.stop hopen) h limit

/-- A search that starts open ends refuted, saturated or, if it has a limit, there. -/
theorem haltReason_run {s : ProofState} (hopen : s.halted = false) (limit : Option Int) :
    (s.run limit).state.halted = true ∧
      ((s.run limit).state.haltReason = HaltReason.refuted ∨
        (s.run limit).state.haltReason = HaltReason.saturated ∨
        limit ≠ none ∧ (s.run limit).state.haltReason = HaltReason.passLimit) := by
  obtain ⟨n, hgo, ⟨hhalted, hrun⟩ | ⟨-, hlimit, hrun⟩⟩ := s.run_cases limit
  · rw [hrun]
    refine ⟨hhalted, ?_⟩
    cases n with
    | zero =>
        rw [passed, hopen] at hhalted
        cases hhalted
    | succ n =>
        rcases (s.passed n).pass_cases with ⟨-, -, hr⟩ | ⟨-, -, -, hr⟩ | ⟨-, -, heq, -⟩
        · exact .inl hr
        · exact .inr (.inl hr)
        · rw [passed, heq, (hgo n (Nat.lt_succ_self n)).1] at hhalted
          cases hhalted
  · rw [hrun]
    refine ⟨rfl, .inr (.inr ⟨fun hnone => ?_, rfl⟩)⟩
    rw [hnone] at hlimit
    cases hlimit

/-- Without a limit, a search that starts open ends refuted or saturated. -/
theorem haltReason_run_none {s : ProofState} (hopen : s.halted = false) :
    (s.run none).state.halted = true ∧
      ((s.run none).state.haltReason = HaltReason.refuted ∨
        (s.run none).state.haltReason = HaltReason.saturated) := by
  obtain ⟨hhalted, hr | hr | ⟨hnone, -⟩⟩ := haltReason_run hopen none
  · exact ⟨hhalted, .inl hr⟩
  · exact ⟨hhalted, .inr hr⟩
  · exact absurd rfl hnone

end ProofState

/-- The empty clause is accepted only once, so nothing before it is empty. -/
theorem Growth.isEmpty_before_last {cs : List Clause} {front : List Step} {step : Step}
    (h : Growth cs (front ++ [step])) (hempty : step.resolvent.isEmpty = true) :
    ∀ c ∈ cs ++ front.map Step.resolvent, c.isEmpty = false := by
  intro c hc
  have hat : (front ++ [step])[front.length]? = some step := List.getElem?_concat_length
  have hlast := h.extends_at hat
  rw [List.take_left] at hlast
  have hdiffers := hlast.new c hc
  cases hc' : c.isEmpty with
  | false => rfl
  | true =>
      have hsame : step.resolvent.same c = true := by
        rw [Clause.same_iff, List.isEmpty_iff.1 hempty, List.isEmpty_iff.1 hc']
      exact absurd (hsame.symm.trans hdiffers) (by simp)

namespace ProofState

theorem isRefuted_iff {s : ProofState} :
    s.isRefuted = true ↔
      ∃ front step, s.derivation = front ++ [step] ∧ step.resolvent.isEmpty = true := by
  simp only [isRefuted, Option.any_eq_true, List.getLast?_eq_some_iff]
  constructor
  · rintro ⟨step, ⟨front, hfront⟩, hempty⟩
    exact ⟨front, step, hfront, hempty⟩
  · rintro ⟨front, step, hfront, hempty⟩
    exact ⟨step, ⟨front, hfront⟩, hempty⟩

/-- A sweep that is cut short has accepted the empty clause last. -/
theorem accepted_of_refuted_sweep {s : ProofState} (h : s.sweep.refuted = true) :
    ∃ front step, s.sweep.accepted.toList = front ++ [step] ∧ step.resolvent.isEmpty = true := by
  refine sweep_preserves (P := fun sweep : Sweep => sweep.refuted = true →
    ∃ front step, sweep.accepted.toList = front ++ [step] ∧ step.resolvent.isEmpty = true)
    ?_ ?_ ?_ h
  · intro sweep i j c d _ _ _ h
    exact h
  · intro sweep i j c d r _ _ _ _ h
    rcases sweep.offer_cases i j r with ⟨-, log, e⟩ | ⟨-, -, -, log, e⟩
    · rw [e]
      exact h
    · rw [e]
      intro hempty
      exact ⟨sweep.accepted.toList, r.step i j, Array.toList_push, hempty⟩
  · simp

/-- The derivation of a run that started afresh ends with the empty clause exactly when the run
gives this as its reason. -/
theorem isRefuted_run_iff (input : List Clause) (limit : Option Int) :
    ((ofClauses input).run limit).state.isRefuted = true ↔
      ((ofClauses input).run limit).state.haltReason = HaltReason.refuted := by
  have hinv := run_preserves
    (P := fun s => s.Honest ∧ (s.haltReason = HaltReason.refuted → s.isRefuted = true))
    ?_ ?_ ⟨honest_ofClauses input, fun h => absurd h reasons_distinct.1⟩ limit
  · constructor
    · intro h
      obtain ⟨front, step, hderivation, hempty⟩ := isRefuted_iff.1 h
      exact hinv.1.refuted.2 ⟨step, by simp [hderivation], hempty⟩
    · exact hinv.2
  · rintro s hopen ⟨hs, -⟩
    refine ⟨hs.pass hopen, fun h => ?_⟩
    rcases s.pass_cases with ⟨href, -, -⟩ | ⟨-, -, -, hr⟩ | ⟨-, -, -, hr⟩
    · obtain ⟨front, step, haccepted, hempty⟩ := accepted_of_refuted_sweep href
      refine isRefuted_iff.2 ⟨s.derivation ++ front, step, ?_, hempty⟩
      rw [List.append_assoc, ← haccepted]
      rfl
    · exact absurd (hr.symm.trans h) reasons_distinct.2.1
    · exact absurd ((hs.running hopen).symm.trans (hr.symm.trans h)) reasons_distinct.1
  · rintro s hopen ⟨hs, -⟩
    exact ⟨hs.stop hopen, fun h => absurd h reasons_distinct.2.2.1⟩

/-- Once the derivation ends with the empty clause, this is the only empty clause. -/
theorem GrownFrom.isEmpty_iff_last {input : List Clause} {s : ProofState} (h : s.GrownFrom input)
    (hs : s.isRefuted = true) {k : Nat} {c : Clause} (hk : s.clauses[k]? = some c) :
    c.isEmpty = true ↔ k + 1 = s.clauses.length := by
  obtain ⟨front, step, hderivation, hempty⟩ := isRefuted_iff.1 hs
  have hgrowth := h.growth
  rw [hderivation] at hgrowth
  have hclauses : s.clauses = (input ++ front.map Step.resolvent) ++ [step.resolvent] := by
    rw [h.clauses, hderivation, List.map_append, List.append_assoc]
    rfl
  have hlength : s.clauses.length = (input ++ front.map Step.resolvent).length + 1 := by
    rw [hclauses, List.length_append]
    rfl
  have hlt : k < s.clauses.length := (List.getElem?_eq_some_iff.1 hk).choose
  rw [hclauses] at hk
  by_cases hfront : k < (input ++ front.map Step.resolvent).length
  · rw [List.getElem?_append_left hfront] at hk
    rw [hgrowth.isEmpty_before_last hempty c (List.mem_of_getElem? hk)]
    constructor
    · intro hfalse
      cases hfalse
    · omega
  · obtain rfl : k = (input ++ front.map Step.resolvent).length := by omega
    rw [List.getElem?_concat_length] at hk
    rw [← Option.some.inj hk]
    exact ⟨fun _ => hlength.symm, fun _ => hempty⟩

theorem GrownFrom.emptyClauseNumber?_eq {input : List Clause} {s : ProofState}
    (h : s.GrownFrom input) (hs : s.isRefuted = true) :
    s.emptyClauseNumber? = some (s.clauses.length : Int) := by
  obtain ⟨front, step, hderivation, hempty⟩ := isRefuted_iff.1 hs
  obtain ⟨n, hn⟩ : ∃ n, s.clauses.length = n + 1 := by
    rw [h.clauses, hderivation]
    exact ⟨input.length + front.length, by simp [Nat.add_assoc]⟩
  have hempty_iff : ∀ (k : Nat) (hk : k < s.clauses.length),
      s.clauses[k].isEmpty = true ↔ k + 1 = s.clauses.length :=
    fun k hk => h.isEmpty_iff_last hs (List.getElem?_eq_getElem hk)
  have hfind : s.clauses.findIdx? Clause.isEmpty = some n := by
    refine List.findIdx?_eq_some_iff_getElem.2 ⟨by omega, ?_, fun k hk => ?_⟩
    · exact (hempty_iff n (by omega)).2 hn.symm
    · rw [hempty_iff k (by omega)]
      omega
  rw [emptyClauseNumber?, hfind, hn]
  rfl

end ProofState

/-- Every resolvent of an earlier and a later clause is settled. -/
def Closed (cs : List Clause) : Prop :=
  ∀ (i j : Nat) (c d : Clause), i < j → cs[i]? = some c → cs[j]? = some d →
    ∀ r ∈ c.resolve d, Settled cs r.clause

namespace ProofState

theorem Honest.closed {s : ProofState} (h : s.Honest)
    (hs : s.haltReason = HaltReason.saturated) : Closed s.clauses := by
  intro i j c d hij hi hj
  have hlt : j < s.clauses.length := (List.getElem?_eq_some_iff.1 hj).choose
  have hcovered : s.Covered := h.covered (hs ▸ reasons_distinct.2.1)
  exact (hcovered _ (h.saturated hs i j hij hlt)).settled hi hj

/-- A search that ends saturated is at a fixpoint. It has tried exactly the pairs of an earlier and
a later clause, and every resolvent of such a pair is a tautology or the same as a clause held. -/
theorem fixpoint_of_saturated (input : List Clause) (limit : Option Int)
    (h : ((ofClauses input).run limit).state.haltReason = HaltReason.saturated) :
    let s := ((ofClauses input).run limit).state
    (∀ p : Int × Int, p ∈ s.checked ↔ 0 ≤ p.1 ∧ p.1 < p.2 ∧ p.2 < s.clauses.length) ∧
      Closed s.clauses := by
  intro s
  have hhonest : s.Honest := (honest_ofClauses input).run limit
  have hcovered : s.Covered := hhonest.covered (h ▸ reasons_distinct.2.1)
  refine ⟨fun p => ⟨fun hp => ?_, fun hp => ?_⟩, hhonest.closed h⟩
  · obtain ⟨i, j, c, d, rfl, hij, -, hj, -⟩ := hcovered p hp
    have hlt : j < s.clauses.length := (List.getElem?_eq_some_iff.1 hj).choose
    omega
  · have htried := hhonest.saturated h p.1.toNat p.2.toNat (by omega) (by omega)
    rwa [Int.toNat_of_nonneg hp.1, Int.toNat_of_nonneg (by omega)] at htried

/-- From `P V Q`, `¬P V Q` and `P V ¬Q` the first pass accepts `Q` and `P` and drops two
tautologies; the second pass finds both clauses once more. -/
theorem fixpoint_of_saturated_second_pass :
    let s := ((ofClauses [⟨[⟨"P", [], false⟩, ⟨"Q", [], false⟩]⟩,
      ⟨[⟨"P", [], true⟩, ⟨"Q", [], false⟩]⟩,
      ⟨[⟨"P", [], false⟩, ⟨"Q", [], true⟩]⟩]).run (some 5)).state
    s.haltReason = HaltReason.saturated ∧
      (∀ p : Int × Int, p ∈ s.checked ↔ 0 ≤ p.1 ∧ p.1 < p.2 ∧ p.2 < s.clauses.length) ∧
      Closed s.clauses := by
  intro s
  have h : s.haltReason = HaltReason.saturated := by
    subst s
    rw [run_of_running rfl rfl, run_of_running (by decide +kernel) (by decide +kernel),
      run_of_halted _ (by decide +kernel)]
    decide +kernel
  exact ⟨h, fixpoint_of_saturated _ _ h⟩

end ProofState

end Resolution
