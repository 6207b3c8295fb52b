import Resolution.Proofs.Growth

/-!
# What the tried pairs cover

A pair is tried once, against the clauses known at that time. Whatever was passed over then is still
a tautology or the same as a clause held, because clauses are never given up. So unless a pass was
cut short by the empty clause, every resolvent of a tried pair is settled, and a search that ends
saturated has tried all pairs.
-/

namespace Resolution

/-- A clause that a search over these clauses has no use for. -/
def Settled (cs : List Clause) (c : Clause) : Prop :=
  c.isTautology = true ∨ ∃ e ∈ cs, c.same e = true

theorem Settled.mono {cs ds : List Clause} (h : ∀ c ∈ cs, c ∈ ds) {c : Clause}
    (hc : Settled cs c) : Settled ds c := by
  rcases hc with htaut | ⟨e, he, hsame⟩
  · exact .inl htaut
  · exact .inr ⟨e, h e he, hsame⟩

theorem settled_of_mem {cs : List Clause} {c : Clause} (h : c ∈ cs) : Settled cs c :=
  .inr ⟨c, h, Clause.same_iff.2 (List.Perm.refl _)⟩

/-- The places are those of an earlier and a later clause of `cs`, and all resolvents of the two are
settled by the clauses in `known`. -/
def Treated (cs known : List Clause) (p : Int × Int) : Prop :=
  ∃ (i j : Nat) (c d : Clause), p = ((i : Int), (j : Int)) ∧ i < j ∧ cs[i]? = some c ∧
    cs[j]? = some d ∧ ∀ r ∈ c.resolve d, Settled known r.clause

theorem Treated.mono {cs known known' : List Clause} (h : ∀ c ∈ known, c ∈ known')
    {p : Int × Int} (hp : Treated cs known p) : Treated cs known' p := by
  obtain ⟨i, j, c, d, hp, hij, hi, hj, hr⟩ := hp
  exact ⟨i, j, c, d, hp, hij, hi, hj, fun r hmem => (hr r hmem).mono h⟩

/-- The places of a pair tell its clauses. -/
theorem Treated.settled {cs known : List Clause} {i j : Nat}
    (h : Treated cs known ((i : Int), (j : Int))) {c d : Clause} (hi : cs[i]? = some c)
    (hj : cs[j]? = some d) : ∀ r ∈ c.resolve d, Settled known r.clause := by
  obtain ⟨i', j', c', d', hp, -, hi', hj', hr⟩ := h
  obtain ⟨hii, hjj⟩ := Prod.mk.inj hp
  obtain rfl : i = i' := Int.ofNat.inj hii
  obtain rfl : j = j' := Int.ofNat.inj hjj
  obtain rfl : c = c' := Option.some.inj (hi.symm.trans hi')
  obtain rfl : d = d' := Option.some.inj (hj.symm.trans hj')
  exact hr

namespace Sweep

/-- Considering a resolvent marks no pair and forgets no clause. Unless the empty clause has turned
up, the resolvent is settled afterwards. -/
theorem offer_spec (i j : Nat) (sweep : Sweep) (r : Resolvent) :
    (sweep.offer i j r).checked = sweep.checked ∧
      (∀ c ∈ sweep.known, c ∈ (sweep.offer i j r).known) ∧
      ((sweep.offer i j r).refuted = false → sweep.refuted = false ∧
        Settled (sweep.offer i j r).known r.clause) := by
  rcases sweep.offer_cases i j r with ⟨hpass, log, e⟩ | ⟨hrun, -, -, log, e⟩
  · rw [e]
    refine ⟨rfl, fun c hc => hc, fun hrun => ⟨hrun, ?_⟩⟩
    rcases hpass with hpass | hpass
    · exact absurd (hpass.symm.trans hrun) (by simp)
    · exact hpass
  · rw [e]
    exact ⟨rfl, fun c hc => List.mem_cons_of_mem _ hc,
      fun _ => ⟨hrun, settled_of_mem List.mem_cons_self⟩⟩

/-- The same for any number of resolvents. -/
theorem foldl_offer_spec (i j : Nat) (rs : List Resolvent) (sweep : Sweep) :
    (rs.foldl (offer i j) sweep).checked = sweep.checked ∧
      (∀ c ∈ sweep.known, c ∈ (rs.foldl (offer i j) sweep).known) ∧
      ((rs.foldl (offer i j) sweep).refuted = false → sweep.refuted = false ∧
        ∀ r ∈ rs, Settled (rs.foldl (offer i j) sweep).known r.clause) := by
  induction rs generalizing sweep with
  | nil => simp
  | cons r rs ih =>
      rw [List.foldl_cons]
      obtain ⟨hchecked, hknown, hopen⟩ := ih (sweep.offer i j r)
      obtain ⟨hchecked', hknown', hopen'⟩ := sweep.offer_spec i j r
      refine ⟨hchecked.trans hchecked', fun c hc => hknown c (hknown' c hc), fun hend => ?_⟩
      obtain ⟨hmid, hrest⟩ := hopen hend
      obtain ⟨hstart, hr⟩ := hopen' hmid
      refine ⟨hstart, fun r' hr' => ?_⟩
      rcases List.mem_cons.1 hr' with rfl | hr'
      · exact hr.mono hknown
      · exact hrest r' hr'

/-- A visit adds its pair to the tried ones and no other; if the empty clause does not turn up, all
resolvents of a pair that it adds are settled. -/
theorem visit_spec (sweep : Sweep) (first second : Clause × Nat) :
    (∀ p ∈ sweep.checked, p ∈ (sweep.visit first second).checked) ∧
      (∀ c ∈ sweep.known, c ∈ (sweep.visit first second).known) ∧
      ((sweep.visit first second).refuted = false → sweep.refuted = false ∧
        ((first.2 : Int), (second.2 : Int)) ∈ (sweep.visit first second).checked ∧
        ∀ p ∈ (sweep.visit first second).checked, p ∈ sweep.checked ∨
          p = ((first.2 : Int), (second.2 : Int)) ∧
            ∀ r ∈ first.1.resolve second.1,
              Settled (sweep.visit first second).known r.clause) := by
  unfold visit
  dsimp only
  split
  · next h =>
      refine ⟨fun p hp => hp, fun c hc => hc, fun hrun => ⟨hrun, ?_, fun p hp => .inl hp⟩⟩
      rw [hrun, Bool.false_or] at h
      exact Std.ExtTreeSet.mem_iff_contains.2 h
  · obtain ⟨hchecked, hknown, hopen⟩ := foldl_offer_spec first.2 second.2
      (first.1.resolve second.1)
      { sweep with checked := sweep.checked.insert ((first.2 : Int), (second.2 : Int)) }
    rw [hchecked]
    refine ⟨fun p hp => mem_insert_pair.2 (.inr hp), hknown, fun hend => ?_⟩
    obtain ⟨hstart, hsettled⟩ := hopen hend
    refine ⟨hstart, mem_insert_pair.2 (.inl rfl), fun p hp => ?_⟩
    rcases mem_insert_pair.1 hp with rfl | hp
    · exact .inr ⟨rfl, hsettled⟩
    · exact .inl hp

/-- At every moment of a pass, unless the empty clause has turned up, every marked pair is one whose
resolvents are settled. -/
theorem treated_visit {cs : List Clause} {sweep : Sweep} {first second : Clause × Nat}
    (hpair : (first, second) ∈ orderedPairs cs.zipIdx)
    (h : sweep.refuted = false → ∀ p ∈ sweep.checked, Treated cs sweep.known p)
    (hend : (sweep.visit first second).refuted = false) :
    ∀ p ∈ (sweep.visit first second).checked, Treated cs (sweep.visit first second).known p := by
  intro p hp
  obtain ⟨hij, hi, hj⟩ := mem_orderedPairs_zipIdx.1 hpair
  obtain ⟨-, hknown, hvisit⟩ := sweep.visit_spec first second
  obtain ⟨hstart, -, hnew⟩ := hvisit hend
  rcases hnew p hp with hold | ⟨rfl, hsettled⟩
  · exact (h hstart p hold).mono hknown
  · exact ⟨_, _, _, _, rfl, hij, hi, hj, hsettled⟩

/-- Unless the empty clause turns up, every pair gone through is marked. -/
theorem foldl_visit_checked (pairs : List ((Clause × Nat) × Clause × Nat)) (sweep : Sweep)
    (hend : (pairs.foldl (fun sweep pair => sweep.visit pair.1 pair.2) sweep).refuted = false) :
    sweep.refuted = false ∧
      (∀ p ∈ sweep.checked,
        p ∈ (pairs.foldl (fun sweep pair => sweep.visit pair.1 pair.2) sweep).checked) ∧
      ∀ pair ∈ pairs, ((pair.1.2 : Int), (pair.2.2 : Int)) ∈
        (pairs.foldl (fun sweep pair => sweep.visit pair.1 pair.2) sweep).checked := by
  induction pairs generalizing sweep with
  | nil => exact ⟨hend, fun p hp => hp, by simp⟩
  | cons pair pairs ih =>
      rw [List.foldl_cons] at hend ⊢
      obtain ⟨hmid, hkept, hpairs⟩ := ih _ hend
      obtain ⟨hgrow, -, hvisit⟩ := sweep.visit_spec pair.1 pair.2
      obtain ⟨hstart, hmarked, -⟩ := hvisit hmid
      refine ⟨hstart, fun p hp => hkept p (hgrow p hp), fun pair' hpair' => ?_⟩
      rcases List.mem_cons.1 hpair' with rfl | hpair'
      · exact hkept _ hmarked
      · exact hpairs pair' hpair'

end Sweep

namespace ProofState

/-- Every tried pair is settled by the clauses held. -/
def Covered (s : ProofState) : Prop := ∀ p ∈ s.checked, Treated s.clauses s.clauses p

def AllTried (s : ProofState) : Prop :=
  ∀ i j : Nat, i < j → j < s.clauses.length → ((i : Int), (j : Int)) ∈ s.checked

theorem Covered.sweep {s : ProofState} (h : s.Covered) (hend : s.sweep.refuted = false) :
    ∀ p ∈ s.sweep.checked, Treated s.clauses s.sweep.known p := by
  refine List.foldlRecOn (motive := fun sweep : Sweep => sweep.refuted = false →
    ∀ p ∈ sweep.checked, Treated s.clauses sweep.known p) _ _ (fun _ => h) ?_ hend
  intro sweep hs pair hpair hend
  exact Sweep.treated_visit hpair hs hend

theorem mem_checked_sweep (s : ProofState) (hend : s.sweep.refuted = false) {i j : Nat}
    (hij : i < j) (hj : j < s.clauses.length) : ((i : Int), (j : Int)) ∈ s.sweep.checked := by
  obtain ⟨-, -, hpairs⟩ := Sweep.foldl_visit_checked (orderedPairs s.clauses.zipIdx) _ hend
  have hi : i < s.clauses.length := by omega
  exact hpairs ((s.clauses[i], i), (s.clauses[j], j)) (mem_orderedPairs_zipIdx.2
    ⟨hij, List.getElem?_eq_getElem hi, List.getElem?_eq_getElem hj⟩)

/-- A pass that the empty clause does not cut short leaves all tried pairs covered. -/
theorem Covered.pass {s : ProofState} (h : s.Covered) (hend : s.sweep.refuted = false) :
    s.pass.state.Covered := by
  intro p hp
  have hknown : ∀ c ∈ s.sweep.known, c ∈ s.pass.state.clauses :=
    fun c hc => (s.grownFrom_sweep.known c).1 hc
  obtain ⟨i, j, c, d, hp, hij, hi, hj, hr⟩ := (h.sweep hend p hp).mono hknown
  exact ⟨i, j, c, d, hp, hij, getElem?_append_of_eq_some hi _, getElem?_append_of_eq_some hj _, hr⟩

end ProofState

end Resolution
