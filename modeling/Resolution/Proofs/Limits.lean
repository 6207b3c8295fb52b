import Resolution.Proofs.Outcomes

/-!
# The limit on the number of passes

A limit decides how many passes are made and nothing else. A run under a limit goes through the
states of the unlimited run in the same order. If that run ends within the limit, also in the last
pass allowed, both end in the same state. If it does not, the run under the limit is stopped early,
and the unlimited run only adds to what was found by then.
-/

namespace Resolution

namespace ProofState

theorem prolongs_passed (s : ProofState) {m n : Nat} (h : m ≤ n) :
    (s.passed m).Prolongs (s.passed n) := by
  induction h with
  | refl => exact Prolongs.refl _
  | step _ ih => exact ih.trans (prolongs_pass _)

section

variable {s : ProofState} {limit : Option Int} {n : Nat}
  (h : ∀ k < n, (s.passed k).halted = false ∧ (s.passed k).atLimit limit = false)

include h

/-- Starting again after some of the passes that a run makes, one ends where the run ends. -/
theorem run_passed : ((s.passed n).run limit).state = (s.run limit).state := by
  induction n with
  | zero => rfl
  | succ n ih =>
      have hbefore := ih fun k hk => h k (Nat.lt_succ_of_lt hk)
      obtain ⟨hopen, hlimit⟩ := h n (Nat.lt_succ_self n)
      rw [← hbefore, run_of_running hopen hlimit]
      rfl

theorem run_eq_passed (hhalted : (s.passed n).halted = true) :
    (s.run limit).state = s.passed n := by
  rw [← run_passed h, run_of_halted limit hhalted]

theorem run_eq_stop (hopen : (s.passed n).halted = false)
    (hlimit : (s.passed n).atLimit limit = true) : (s.run limit).state = (s.passed n).stop := by
  rw [← run_passed h, run_of_atLimit hopen hlimit]

end

theorem passes_passed_ofClauses (input : List Clause) (n : Nat) :
    ((ofClauses input).passed n).passes = n := by
  rw [passes_passed]
  exact Int.zero_add _

theorem atLimit_passed (input : List Clause) (limit : Int) (n : Nat) :
    ((ofClauses input).passed n).atLimit (some limit) = decide (limit ≤ n) := by
  rw [atLimit, passes_passed_ofClauses]

/-- A pass is made as long as the search is open and below the limit. -/
theorem open_below_limit {input : List Clause} {limit : Int} {n : Nat}
    (hopen : ∀ k < n, ((ofClauses input).passed k).halted = false) (hlimit : n ≤ limit.toNat) :
    ∀ k < n, ((ofClauses input).passed k).halted = false ∧
      ((ofClauses input).passed k).atLimit (some limit) = false := by
  intro k hk
  refine ⟨hopen k hk, ?_⟩
  rw [atLimit_passed]
  exact decide_eq_false (by omega)

/-- Under every limit, also a negative one, a search that would end within the limit ends in the
very same state. Any other search is stopped after as many passes as the limit allows, in a state
that the unlimited search prolongs. -/
theorem limited_run_exact (input : List Clause) (limit : Int) :
    let full := ((ofClauses input).run none).state
    let part := ((ofClauses input).run (some limit)).state
    (full.passes ≤ limit → part = full) ∧
      (limit < full.passes →
        part.haltReason = HaltReason.passLimit ∧ part.passes = max limit 0 ∧
          part.clauses <+: full.clauses ∧ part.derivation <+: full.derivation ∧
          ∀ p ∈ part.checked, p ∈ full.checked) := by
  intro full part
  obtain ⟨n, hgo, hhalted, hfull⟩ := (ofClauses input).run_none_cases
  have hpasses : full.passes = n := by
    rw [show full = (ofClauses input).passed n from hfull, passes_passed_ofClauses]
  have hpos : 0 < n := by
    apply Nat.pos_of_ne_zero
    rintro rfl
    cases hhalted
  constructor
  · intro hle
    have hpart : part = (ofClauses input).passed n :=
      run_eq_passed (open_below_limit hgo (by omega)) hhalted
    exact hpart.trans hfull.symm
  · intro hlt
    have hbefore : limit.toNat < n := by omega
    have hreached : ((ofClauses input).passed limit.toNat).atLimit (some limit) = true := by
      rw [atLimit_passed]
      exact decide_eq_true (by omega)
    have hgo' : ∀ k < limit.toNat, ((ofClauses input).passed k).halted = false :=
      fun k hk => hgo k (Nat.lt_trans hk hbefore)
    have hpart : part = ((ofClauses input).passed limit.toNat).stop :=
      run_eq_stop (open_below_limit hgo' (Nat.le_refl _)) (hgo _ hbefore) hreached
    have hprolongs := (ofClauses input).prolongs_passed (Nat.le_of_lt hbefore)
    rw [← hfull] at hprolongs
    rw [hpart]
    refine ⟨rfl, ?_, hprolongs.clauses, hprolongs.derivation, hprolongs.checked⟩
    change ((ofClauses input).passed limit.toNat).passes = _
    rw [passes_passed_ofClauses]
    omega

/-- Two passes refute these clauses: a limit of two leaves the run as it is, a limit of one stops it
after the step that the refutation starts with, and a negative one before any pass. -/
theorem limited_run_exact_around_two_passes :
    let start := ofClauses [⟨[⟨"P", [.const "a"], false⟩]⟩,
      ⟨[⟨"P", [.var "x"], true⟩, ⟨"Q", [.var "x"], false⟩]⟩, ⟨[⟨"Q", [.const "a"], true⟩]⟩]
    let full := (start.run none).state
    full.passes = 2 ∧ (start.run (some 2)).state = full ∧
      (start.run (some 1)).state.haltReason = HaltReason.passLimit ∧
      (start.run (some 1)).state.passes = 1 ∧
      (start.run (some 1)).state.derivation <+: full.derivation ∧
      (start.run (some (-3))).state.haltReason = HaltReason.passLimit ∧
      (start.run (some (-3))).state.passes = 0 := by
  intro start full
  have hpasses : full.passes = 2 := by
    subst full start
    rw [run_of_running rfl rfl, run_of_running (by decide +kernel) rfl,
      run_of_halted none (by decide +kernel)]
    rfl
  have hwithin := (limited_run_exact _ 2).1 (Int.le_of_eq hpasses)
  obtain ⟨hreason, hone, -, hprefix, -⟩ :=
    (limited_run_exact _ 1).2 (show (1 : Int) < full.passes by rw [hpasses]; decide)
  obtain ⟨hreason', hnone, -⟩ :=
    (limited_run_exact _ (-3)).2 (show (-3 : Int) < full.passes by rw [hpasses]; decide)
  exact ⟨hpasses, hwithin, hreason, hone, hprefix, hreason', hnone⟩

end ProofState

end Resolution
