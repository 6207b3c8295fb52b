import Resolution.Proofs.Reports

/-!
# What becomes of a refutation

A run does nothing to a state that has halted, but a pass may be made on it. The empty clause stays
where it is for good and nothing else is empty, so such a pass is never cut short: it accepts other
clauses, and the empty clause is no longer the last one derived, or it accepts none, and the reason
is overwritten by that of saturation. Either way one half of the record is lost and never comes
back. Runs alone leave the record as it is.
-/

namespace Resolution

namespace ProofState

/-- The empty clause is among the clauses. -/
def HoldsEmpty (s : ProofState) : Prop := ∃ c ∈ s.clauses, c.isEmpty = true

/-- Both halves of the record name the refutation: the last step and the reason. -/
structure RecordsRefutation (s : ProofState) : Prop where
  last : s.isRefuted = true
  reason : s.haltReason = HaltReason.refuted

theorem not_holdsEmpty_iff {s : ProofState} :
    ¬s.HoldsEmpty ↔ ∀ c ∈ s.clauses, c.isEmpty = false := by
  simp [HoldsEmpty]

/-- A pass that brings the empty clause halts the state and records the refutation. -/
theorem recordsRefutation_pass {s : ProofState} (hs : ¬s.HoldsEmpty)
    (h : s.pass.state.HoldsEmpty) :
    s.pass.state.halted = true ∧ s.pass.state.RecordsRefutation := by
  obtain ⟨c, hc, hempty⟩ := h
  have hsweep : s.sweep.refuted = true := by
    rw [refuted_sweep_iff]
    change c ∈ s.clauses ++ s.sweep.accepted.toList.map Step.resolvent at hc
    rcases List.mem_append.1 hc with hc | hc
    · exact absurd ⟨c, hc, hempty⟩ hs
    · obtain ⟨step, hstep, rfl⟩ := List.mem_map.1 hc
      exact ⟨step, hstep, hempty⟩
  obtain ⟨front, step, haccepted, hlast⟩ := accepted_of_refuted_sweep hsweep
  have hrefuted : s.pass.state.isRefuted = true := by
    refine isRefuted_iff.2 ⟨s.derivation ++ front, step, ?_, hlast⟩
    rw [List.append_assoc, ← haccepted]
    rfl
  rcases s.pass_cases with ⟨-, hhalted, hr⟩ | ⟨hopen, -⟩ | ⟨hopen, -⟩
  · exact ⟨hhalted, hrefuted, hr⟩
  · exact absurd (hsweep.symm.trans hopen) (by simp)
  · exact absurd (hsweep.symm.trans hopen) (by simp)

/-- The same for every call. A run goes on only from open states, which hold no empty clause. -/
theorem recordsRefutation_perform (call : Call) {s : ProofState} (hs : ¬s.HoldsEmpty)
    (h : (call.perform s).HoldsEmpty) :
    (call.perform s).halted = true ∧ (call.perform s).RecordsRefutation := by
  cases call with
  | pass => exact recordsRefutation_pass hs h
  | run limit =>
      refine run_preserves (P := fun t => t.HoldsEmpty → t.halted = true ∧ t.RecordsRefutation)
        ?_ ?_ (fun hempty => absurd hempty hs) limit h
      · intro t hopen ht
        refine recordsRefutation_pass fun hempty => ?_
        exact absurd (hopen.symm.trans (ht hempty).1) (by simp)
      · intro t hopen ht hempty
        exact absurd (hopen.symm.trans (ht hempty).1) (by simp)

theorem HoldsEmpty.of_prolongs {s t : ProofState} (h : s.HoldsEmpty) (hst : s.Prolongs t) :
    t.HoldsEmpty := by
  obtain ⟨c, hc, hempty⟩ := h
  exact ⟨c, hst.clauses.subset hc, hempty⟩

/-- What a sweep accepts is new, so with the empty clause there it accepts no empty clause. -/
theorem HoldsEmpty.refuted_sweep {s : ProofState} (h : s.HoldsEmpty) :
    s.sweep.refuted = false := by
  obtain ⟨c, hc, hempty⟩ := h
  rw [← Bool.not_eq_true, refuted_sweep_iff]
  rintro ⟨step, hstep, hstep'⟩
  obtain ⟨i, hi⟩ := List.mem_iff_getElem?.1 hstep
  have hnew := (s.grownFrom_sweep.growth.extends_at hi).new c (List.mem_append_left _ hc)
  have hsame : step.resolvent.same c = true := by
    rw [Clause.same_iff, List.isEmpty_iff.1 hstep', List.isEmpty_iff.1 hempty]
  exact absurd (hsame.symm.trans hnew) (by simp)

/-- A pass on a state with the empty clause leaves no full record of a refutation. -/
theorem HoldsEmpty.not_recordsRefutation_pass {s : ProofState} (h : s.HoldsEmpty) :
    ¬s.pass.state.RecordsRefutation := by
  intro hrecord
  rcases s.pass_cases with ⟨href, -⟩ | ⟨-, -, -, hr⟩ | ⟨href, hne, -⟩
  · exact absurd (h.refuted_sweep.symm.trans href) (by simp)
  · exact reasons_distinct.2.1 (hr.symm.trans hrecord.reason)
  · obtain ⟨front, step, hderivation, hempty⟩ := isRefuted_iff.1 hrecord.last
    have hlast : step ∈ s.sweep.accepted.toList := by
      have hlast : (s.derivation ++ s.sweep.accepted.toList).getLast? = some step :=
        List.getLast?_eq_some_iff.2 ⟨front, hderivation⟩
      rw [List.getLast?_append_of_ne_nil _ hne] at hlast
      exact List.mem_of_getLast? hlast
    exact absurd (href.symm.trans (s.refuted_sweep_iff.2 ⟨step, hlast, hempty⟩)) (by simp)

theorem run_perform_of_halted {s : ProofState} (h : s.halted = true) (limit : Option Int) :
    (Call.run limit).perform s = s := by
  change (s.run limit).state = s
  rw [run_of_halted limit h]

theorem after_cons (s : ProofState) (call : Call) (calls : List Call) :
    s.after (call :: calls) = (call.perform s).after calls := rfl

/-- Only a pass changes a state that has halted. -/
theorem after_of_pass_not_mem {s : ProofState} (h : s.halted = true) {calls : List Call}
    (hcalls : Call.pass ∉ calls) : s.after calls = s := by
  induction calls with
  | nil => rfl
  | cons call calls ih =>
      cases call with
      | pass => exact absurd List.mem_cons_self hcalls
      | run limit =>
          rw [after_cons, run_perform_of_halted h limit]
          exact ih fun hmem => hcalls (List.mem_cons_of_mem _ hmem)

theorem prolongs_after (s : ProofState) (calls : List Call) : s.Prolongs (s.after calls) :=
  after_preserves (fun t h => h.trans t.prolongs_pass)
    (fun _ h => ⟨h.clauses, h.derivation, h.checked⟩) (Prolongs.refl s) calls

theorem halted_after {s : ProofState} (h : s.halted = true) (calls : List Call) :
    (s.after calls).halted = true := by
  refine after_preserves (P := fun t => t.halted = true) (fun t ht => ?_) (fun _ _ => rfl) h calls
  simp [pass, concluded, finish, ht]

/-- A record that is not full does not become full again. -/
theorem HoldsEmpty.not_recordsRefutation_after {s : ProofState} (h : s.HoldsEmpty)
    (hhalted : s.halted = true) (hs : ¬s.RecordsRefutation) (calls : List Call) :
    ¬(s.after calls).RecordsRefutation := by
  induction calls generalizing s with
  | nil => exact hs
  | cons call calls ih =>
      rw [after_cons]
      refine ih (h.of_prolongs (s.prolongs_perform call)) (halted_after hhalted [call]) ?_
      cases call with
      | pass => exact h.not_recordsRefutation_pass
      | run limit =>
          rw [run_perform_of_halted hhalted limit]
          exact hs

theorem HoldsEmpty.recordsRefutation_after_iff {s : ProofState} (h : s.HoldsEmpty)
    (hhalted : s.halted = true) (hs : s.RecordsRefutation) (calls : List Call) :
    (s.after calls).RecordsRefutation ↔ Call.pass ∉ calls := by
  refine ⟨fun hafter => ?_, fun hcalls => ?_⟩
  · induction calls with
    | nil => simp
    | cons call calls ih =>
        rw [after_cons] at hafter
        cases call with
        | pass =>
            exact absurd hafter ((h.of_prolongs s.prolongs_pass).not_recordsRefutation_after
              (halted_after hhalted [.pass]) h.not_recordsRefutation_pass calls)
        | run limit =>
            rw [run_perform_of_halted hhalted limit] at hafter
            simpa using ih hafter
  · rw [after_of_pass_not_mem hhalted hcalls]
    exact hs

theorem emptyClauseNumber?_of_prolongs {s t : ProofState} (h : s.Prolongs t) {n : Int}
    (hs : s.emptyClauseNumber? = some n) : t.emptyClauseNumber? = some n := by
  obtain ⟨more, hmore⟩ := h.clauses
  unfold emptyClauseNumber? at hs ⊢
  rw [← hmore, List.findIdx?_append]
  cases hfind : s.clauses.findIdx? Clause.isEmpty with
  | none => simp [hfind] at hs
  | some i => rwa [hfind] at hs

end ProofState

/-- Let a call bring the empty clause. The last step and the reason then name the refutation. After
any further calls the state is halted still and the empty clause has its number. The last step, the
report and the reason tell of the refutation exactly if no pass was among these calls. -/
theorem refutation_kept_iff {input : List Clause} {calls : List Call} {call : Call}
    (hbefore : ¬((ProofState.ofClauses input).after calls).HoldsEmpty)
    (hempty : (call.perform ((ProofState.ofClauses input).after calls)).HoldsEmpty)
    (more : List Call) (fullLog : Bool) :
    let s := call.perform ((ProofState.ofClauses input).after calls)
    let t := s.after more
    s.isRefuted = true ∧ s.haltReason = HaltReason.refuted ∧
      t.halted = true ∧ t.emptyClauseNumber? = some (s.clauses.length : Int) ∧
      ∃ report, t.report fullLog = .ok report ∧
        (t.isRefuted = true ∧ Report.lastLine report = Report.proved ∧
            t.haltReason = HaltReason.refuted ↔
          Call.pass ∉ more) := by
  intro s t
  obtain ⟨hhalted, hrecord⟩ := ProofState.recordsRefutation_perform call hbefore hempty
  have hs : s.GrownFrom input := by
    have hgrown := (ProofState.grownFrom_ofClauses input).after (calls ++ [call])
    rwa [ProofState.after, List.foldl_append] at hgrown
  obtain ⟨report, hreport⟩ := (hs.after more).exists_report fullLog
  refine ⟨hrecord.last, hrecord.reason, ProofState.halted_after hhalted more, ?_, report, hreport,
    ?_⟩
  · exact ProofState.emptyClauseNumber?_of_prolongs (s.prolongs_after more)
      (hs.emptyClauseNumber?_eq hrecord.last)
  · rw [← hempty.recordsRefutation_after_iff hhalted hrecord more,
      ProofState.lastLine_report hreport, Report.verdict_eq_proved_iff]
    exact ⟨fun h => ⟨h.1, h.2.2⟩, fun h => ⟨h.last, h.last, h.reason⟩⟩

/-- `P` and `¬P` are refuted in front of a pair that has not been tried. Runs keep the refutation on
record, a pass does not. -/
theorem refutation_kept_iff_untried_pair :
    let start := ProofState.ofClauses [⟨[⟨"P", [], false⟩]⟩, ⟨[⟨"P", [], true⟩]⟩,
      ⟨[⟨"Q", [], false⟩, ⟨"R", [], false⟩]⟩, ⟨[⟨"Q", [], true⟩]⟩]
    let s := Call.pass.perform (start.after [])
    ¬(start.after []).HoldsEmpty ∧ s.HoldsEmpty ∧
      (∃ report, (s.after [.run none, .run (some 1)]).report false = .ok report ∧
        Report.lastLine report = Report.proved) ∧
      ∃ report, (s.after [.run none, .pass]).report false = .ok report ∧
        ¬((s.after [.run none, .pass]).isRefuted = true ∧ Report.lastLine report = Report.proved ∧
          (s.after [.run none, .pass]).haltReason = HaltReason.refuted) := by
  intro start s
  have hbefore : ¬(start.after []).HoldsEmpty := by
    rw [ProofState.not_holdsEmpty_iff]
    subst start
    decide
  have hempty : s.HoldsEmpty := by
    refine List.any_eq_true.1 ?_
    subst s start
    decide +kernel
  obtain ⟨-, -, -, -, kept, hkept, hkept_iff⟩ :=
    refutation_kept_iff hbefore hempty [.run none, .run (some 1)] false
  obtain ⟨-, -, -, -, lost, hlost, hlost_iff⟩ :=
    refutation_kept_iff hbefore hempty [.run none, .pass] false
  exact ⟨hbefore, hempty, ⟨kept, hkept, (hkept_iff.2 (by decide)).2.1⟩, lost, hlost,
    fun h => hlost_iff.1 h (by decide)⟩

/-- The first pass refutes `P` and `¬P`. The second accepts `R`, after which the report denies the
refutation, and the third overwrites the reason. -/
theorem refutation_lost_by_passes :
    let input : List Clause := [⟨[⟨"P", [], false⟩]⟩, ⟨[⟨"P", [], true⟩]⟩,
      ⟨[⟨"Q", [], false⟩, ⟨"R", [], false⟩]⟩, ⟨[⟨"Q", [], true⟩]⟩]
    let s := (ProofState.ofClauses input).after [.pass]
    (∀ c ∈ input, c.isEmpty = false) ∧ s.HoldsEmpty ∧ s.isRefuted = true ∧
      s.haltReason = HaltReason.refuted ∧ (s.after [.pass]).isRefuted = false ∧
      (∃ report, (s.after [.pass]).report false = .ok report ∧
        Report.lastLine report = Report.notProved) ∧
      (s.after [.pass, .pass]).haltReason = HaltReason.saturated := by
  intro input s
  have hempty : s.HoldsEmpty := by
    refine List.any_eq_true.1 ?_
    subst s
    decide +kernel
  have hrefuted : s.isRefuted = true ∧ s.haltReason = HaltReason.refuted := by
    subst s
    decide +kernel
  have hsecond : (s.after [.pass]).isRefuted = false ∧
      (s.after [.pass]).haltReason ≠ HaltReason.passLimit := by
    subst s
    decide +kernel
  have hgrown : (s.after [.pass]).GrownFrom input :=
    ((ProofState.grownFrom_ofClauses input).after [.pass]).after [.pass]
  obtain ⟨report, hreport⟩ := hgrown.exists_report false
  refine ⟨by decide, hempty, hrefuted.1, hrefuted.2, hsecond.1, ⟨report, hreport, ?_⟩, ?_⟩
  · rw [ProofState.lastLine_report hreport]
    exact Report.verdict_eq_notProved_iff.2 hsecond
  · subst s
    decide +kernel

end Resolution
