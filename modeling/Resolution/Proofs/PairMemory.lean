import Resolution.Proofs.SearchBounds

/-!
# The memory of tried pairs saves work and nothing else

An exhaustive pass resolves every pair of clauses again, whether or not it was tried before. What it
finds at a pair tried before was settled then and still is, since clauses are never given up. So at
every moment of a pass the two sweeps hold the same clauses and steps and differ only in what they
have logged, and the two searches go through the same states.
-/

namespace Resolution

/-- Resolves two clauses, given with their places, whether or not that pair was tried before. -/
def Sweep.retry (sweep : Sweep) (first second : Clause × Nat) : Sweep :=
  if sweep.refuted then sweep
  else
    (first.1.resolve second.1).foldl (offer first.2 second.2)
      { sweep with checked := sweep.checked.insert ((first.2 : Int), (second.2 : Int)) }

theorem Sweep.GrownFrom.retry {cs : List Clause} {sweep : Sweep} (h : sweep.GrownFrom cs)
    {first second : Clause × Nat} (hpair : (first, second) ∈ orderedPairs cs.zipIdx) :
    (sweep.retry first second).GrownFrom cs := by
  obtain ⟨hij, hi, hj⟩ := mem_orderedPairs_zipIdx.1 hpair
  unfold Sweep.retry
  split
  · exact h
  · exact List.foldlRecOn _ _ (motive := Sweep.GrownFrom cs) ⟨h.known, h.growth⟩
      fun sweep hs r hr => hs.offer hij hi hj hr

namespace ProofState

def exhaustiveSweep (s : ProofState) : Sweep :=
  (orderedPairs s.clauses.zipIdx).foldl (fun sweep pair => sweep.retry pair.1 pair.2)
    { known := s.clauses, checked := s.checked }

theorem grownFrom_exhaustiveSweep (s : ProofState) : s.exhaustiveSweep.GrownFrom s.clauses := by
  refine List.foldlRecOn _ _ (motive := Sweep.GrownFrom s.clauses) ⟨by simp, .nil⟩ ?_
  intro sweep hs pair hpair
  exact hs.retry hpair

def exhaustivePass (s : ProofState) : ProofState := s.finish s.exhaustiveSweep

theorem remaining_exhaustivePass_lt {s : ProofState} (h : s.halted = false) :
    s.exhaustivePass.remaining < s.remaining :=
  remaining_finish_lt h s.grownFrom_exhaustiveSweep

/-- Makes exhaustive passes until the state has halted or the limit is reached. -/
def exhaustiveRun (limit : Option Int) (s : ProofState) : ProofState :=
  if s.halted then s
  else if s.atLimit limit then s.stop
  else exhaustiveRun limit s.exhaustivePass
termination_by s.remaining
decreasing_by exact remaining_exhaustivePass_lt (by simpa using ‹¬s.halted = true›)

end ProofState

namespace Sweep

/-- The same but for the log. -/
structure Agrees (a b : Sweep) : Prop where
  known : a.known = b.known
  checked : a.checked = b.checked
  accepted : a.accepted = b.accepted
  refuted : a.refuted = b.refuted

theorem Agrees.offer {a b : Sweep} (h : a.Agrees b) (i j : Nat) (r : Resolvent) :
    (a.offer i j r).Agrees (b.offer i j r) := by
  unfold Sweep.offer Sweep.consider
  rw [h.refuted, h.known]
  split
  · exact h
  · split
    · exact ⟨rfl, h.checked, h.accepted, rfl⟩
    · split
      · exact h
      · exact ⟨rfl, h.checked, by rw [h.accepted], rfl⟩

theorem Agrees.foldl_offer {a b : Sweep} (h : a.Agrees b) (i j : Nat) (rs : List Resolvent) :
    (rs.foldl (Sweep.offer i j) a).Agrees (rs.foldl (Sweep.offer i j) b) := by
  induction rs generalizing a b with
  | nil => exact h
  | cons r rs ih => exact ih (h.offer i j r)

/-- A settled resolvent is passed over. -/
theorem agrees_offer_of_settled {a b : Sweep} (h : a.Agrees b) (i j : Nat) {r : Resolvent}
    (hr : Settled b.known r.clause) : a.Agrees (b.offer i j r) := by
  rcases b.offer_cases i j r with ⟨-, log, e⟩ | ⟨-, htaut, hnew, log, e⟩
  · rw [e]
    exact ⟨h.known, h.checked, h.accepted, h.refuted⟩
  · rcases hr with hr | ⟨c, hc, hsame⟩
    · exact absurd (hr.symm.trans htaut) (by simp)
    · exact absurd (hsame.symm.trans (hnew c hc)) (by simp)

theorem agrees_foldl_offer_of_settled {a b : Sweep} (h : a.Agrees b) (i j : Nat)
    {rs : List Resolvent} (hrs : ∀ r ∈ rs, Settled a.known r.clause) :
    a.Agrees (rs.foldl (Sweep.offer i j) b) := by
  induction rs generalizing b with
  | nil => exact h
  | cons r rs ih =>
      have hr := hrs r List.mem_cons_self
      rw [h.known] at hr
      exact ih (agrees_offer_of_settled h i j hr) fun r' hr' => hrs r' (List.mem_cons_of_mem r hr')

theorem insert_eq_of_mem {t : PairSet} {p : Int × Int} (h : p ∈ t) : t.insert p = t := by
  refine Std.ExtTreeSet.ext_mem fun q => ?_
  rw [mem_insert_pair]
  constructor
  · intro hq
    rcases hq with rfl | hq
    · exact h
    · exact hq
  · exact .inr

/-- Visiting a pair and trying it in any case come to the same, if whatever was tried before is
settled. -/
theorem Agrees.visit_retry {cs : List Clause} {a b : Sweep} (h : a.Agrees b)
    {first second : Clause × Nat} (hpair : (first, second) ∈ orderedPairs cs.zipIdx)
    (htreated : a.refuted = false → ∀ p ∈ a.checked, Treated cs a.known p) :
    (a.visit first second).Agrees (b.retry first second) := by
  obtain ⟨-, hi, hj⟩ := mem_orderedPairs_zipIdx.1 hpair
  obtain ⟨place, hplace⟩ : ∃ place : Int × Int, place = ((first.2 : Int), (second.2 : Int)) :=
    ⟨_, rfl⟩
  have hmarked : Agrees { a with checked := a.checked.insert place }
      { b with checked := b.checked.insert place } :=
    ⟨h.known, by rw [h.checked], h.accepted, h.refuted⟩
  unfold visit retry
  dsimp only
  rw [← hplace]
  by_cases ha : a.refuted = true
  · have hb : b.refuted = true := h.refuted ▸ ha
    rw [if_pos (by simp [ha]), if_pos hb]
    exact h
  · have hb : ¬b.refuted = true := h.refuted ▸ ha
    rw [if_neg hb]
    split
    · next htried =>
        have hmem : place ∈ a.checked :=
          Std.ExtTreeSet.mem_iff_contains.2 (by simpa [ha] using htried)
        have hsettled := (htreated (by simpa using ha) _ (hplace ▸ hmem)).settled hi hj
        refine agrees_foldl_offer_of_settled ?_ _ _ hsettled
        exact ⟨h.known, by rw [← h.checked, insert_eq_of_mem hmem], h.accepted, h.refuted⟩
    · exact hmarked.foldl_offer _ _ _

/-- The same for any number of pairs. -/
theorem Agrees.foldl_visit_retry {cs : List Clause} {a b : Sweep} (h : a.Agrees b)
    {pairs : List ((Clause × Nat) × Clause × Nat)}
    (hpairs : ∀ p ∈ pairs, p ∈ orderedPairs cs.zipIdx)
    (htreated : a.refuted = false → ∀ p ∈ a.checked, Treated cs a.known p) :
    (pairs.foldl (fun sweep pair => sweep.visit pair.1 pair.2) a).Agrees
      (pairs.foldl (fun sweep pair => sweep.retry pair.1 pair.2) b) := by
  induction pairs generalizing a b with
  | nil => exact h
  | cons pair pairs ih =>
      have hpair := hpairs pair List.mem_cons_self
      have hrest : ∀ p ∈ pairs, p ∈ orderedPairs cs.zipIdx :=
        fun p hp => hpairs p (List.mem_cons_of_mem pair hp)
      exact ih (h.visit_retry hpair htreated) hrest (treated_visit hpair htreated)

end Sweep

namespace ProofState

theorem Covered.agrees_sweep {s : ProofState} (h : s.Covered) :
    s.sweep.Agrees s.exhaustiveSweep :=
  Sweep.Agrees.foldl_visit_retry ⟨rfl, rfl, rfl, rfl⟩ (fun _ hp => hp) fun _ => h

/-- A pass that remembers and an exhaustive one lead to the same state. -/
theorem Covered.exhaustivePass_eq {s : ProofState} (h : s.Covered) :
    s.exhaustivePass = s.pass.state := by
  have hagrees := h.agrees_sweep
  have hpass : s.pass.state = s.finish s.sweep := rfl
  rw [hpass, exhaustivePass]
  simp only [finish, hagrees.checked, hagrees.accepted, hagrees.refuted]

theorem Honest.exhaustiveRun_eq {s : ProofState} (h : s.Honest) (limit : Option Int) :
    s.exhaustiveRun limit = (s.run limit).state := by
  induction s using run.induct limit with
  | case1 s hhalted => rw [exhaustiveRun, if_pos hhalted, run_of_halted limit hhalted]
  | case2 s hhalted hlimit =>
      have hopen : s.halted = false := by simpa using hhalted
      rw [exhaustiveRun, if_neg hhalted, if_pos hlimit, run_of_atLimit hopen hlimit]
  | case3 s hhalted hlimit first ih =>
      have hopen : s.halted = false := by simpa using hhalted
      have hcovered : s.Covered := h.covered (by rw [h.running hopen]; exact reasons_distinct.1)
      rw [exhaustiveRun, if_neg hhalted, if_neg hlimit, hcovered.exhaustivePass_eq,
        run_of_running hopen (by simpa using hlimit)]
      exact ih (h.pass hopen)

/-- For every input and every limit, the search that remembers the tried pairs and the search that
tries every pair again in every pass end in the same state. -/
theorem exhaustiveRun_eq_run (input : List Clause) (limit : Option Int) :
    (ofClauses input).exhaustiveRun limit = ((ofClauses input).run limit).state :=
  (honest_ofClauses input).exhaustiveRun_eq limit

end ProofState

end Resolution
