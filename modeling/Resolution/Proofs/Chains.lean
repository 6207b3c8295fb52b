import Mathlib.Data.Finset.Card
import Resolution.Proofs.Resolvents

/-!
# Chains of bindings

A chain is cyclic when it leads to a term that leads back to itself. A chain that is longer than
there are bindings passes a bound variable twice, so following a chain fails exactly on a cycle, and
the variable that it names lies on the cycle. A limit of the caller's is compared with the number of
hops to the end.

Unification binds only an end of a chain, to another end. The new binding leads nowhere further, so
it closes no cycle, and it opens none, since it comes behind all bindings that were there.
-/

namespace Resolution

namespace Substitution

variable {σ τ : Substitution} {s t u : Term}

/-- The term the given number of hops along a chain, if the chain is that long. -/
def hop (σ : Substitution) : Nat → Term → Option Term
  | 0, t => some t
  | n + 1, t => (σ.next? t).bind (σ.hop n)

/-- The chain leads to a term that leads back to itself. -/
def Cyclic (σ : Substitution) (t : Term) : Prop :=
  ∃ m n u, σ.hop m t = some u ∧ σ.hop (n + 1) u = some u

theorem hop_succ_of_next? (h : σ.next? s = some t) (n : Nat) :
    σ.hop (n + 1) s = σ.hop n t := by
  rw [hop, h, Option.bind_some]

theorem hop_succ_eq_some_iff {n : Nat} :
    σ.hop (n + 1) s = some u ↔ ∃ t, σ.next? s = some t ∧ σ.hop n t = some u := by
  rw [hop, Option.bind_eq_some_iff]

theorem hop_add (σ : Substitution) (m n : Nat) (t : Term) :
    σ.hop (m + n) t = (σ.hop m t).bind (σ.hop n) := by
  induction m generalizing t with
  | zero => rw [Nat.zero_add, hop, Option.bind_some]
  | succ m ih =>
      rw [Nat.succ_add, hop, hop]
      cases σ.next? t with
      | none => rfl
      | some u => exact ih u

/-- A chain passes every place in front of one that it reaches. -/
theorem exists_hop_of_le {m n : Nat} (hmn : m ≤ n) (h : σ.hop n t = some u) :
    ∃ v, σ.hop m t = some v ∧ σ.hop (n - m) v = some u := by
  obtain ⟨k, rfl⟩ := Nat.exists_eq_add_of_le hmn
  rw [hop_add, Option.bind_eq_some_iff] at h
  rwa [Nat.add_sub_cancel_left]

/-- Every term of a chain but its last is a bound variable. -/
theorem exists_key_of_next? (h : σ.next? s = some t) : ∃ x ∈ σ.keys, s = .var x := by
  cases s with
  | const a => simp [next?] at h
  | var x =>
      obtain ⟨front, back, heq, -⟩ := List.lookup_eq_some_iff.1 h
      exact ⟨x, by simp [keys, heq], rfl⟩

theorem followFor_of_hop {n hops : Nat} (hn : n ≤ hops) (h : σ.hop n t = some u)
    (hend : σ.next? u = none) : σ.followFor hops t = .ok u := by
  induction n generalizing t hops with
  | zero =>
      obtain rfl : t = u := Option.some.inj h
      exact followFor_of_next?_none hend hops
  | succ n ih =>
      obtain ⟨v, hnext, hhop⟩ := hop_succ_eq_some_iff.1 h
      obtain ⟨hops, rfl⟩ : ∃ k, hops = k + 1 := ⟨hops - 1, by omega⟩
      simp only [followFor, hnext]
      exact ih (Nat.le_of_succ_le_succ hn) hhop

/-- Within its limit a chain is followed to its end. -/
theorem followFor_eq_ok_iff {hops : Nat} :
    σ.followFor hops t = .ok u ↔ ∃ n ≤ hops, σ.hop n t = some u ∧ σ.next? u = none := by
  refine ⟨fun h => ?_, fun ⟨n, hn, hhop, hend⟩ => followFor_of_hop hn hhop hend⟩
  refine followFor_induction
    (P := fun hops t => ∃ n ≤ hops, σ.hop n t = some u ∧ σ.next? u = none) ?_ ?_ h
  · intro hops hend
    exact ⟨0, Nat.zero_le hops, rfl, hend⟩
  · rintro hops t v hnext ⟨n, hn, hhop, hend⟩
    exact ⟨n + 1, Nat.succ_le_succ hn, by rwa [hop_succ_of_next? hnext], hend⟩

/-- A chain that goes on at its limit is reported, with the variable there. -/
theorem followFor_eq_error_iff {hops : Nat} {e : CyclicChain} :
    σ.followFor hops t = .error e ↔
      ∃ u v, σ.hop hops t = some u ∧ σ.next? u = some v ∧ e = ⟨u.name⟩ := by
  induction hops generalizing t with
  | zero =>
      cases hnext : σ.next? t with
      | none => simp [followFor, hop, hnext]
      | some v => simp [followFor, hop, hnext, eq_comm]
  | succ hops ih =>
      cases hnext : σ.next? t with
      | none => simp [followFor, hop, hnext]
      | some v => simp only [followFor, hnext, ih, hop_succ_of_next? hnext]

/-- A cyclic chain goes on for ever: it can be led round its cycle as often as needed. -/
theorem Cyclic.exists_hop (h : σ.Cyclic t) (n : Nat) : ∃ u, σ.hop n t = some u := by
  obtain ⟨m, k, v, hv, hback⟩ := h
  have hround : ∀ rounds, σ.hop (rounds * (k + 1)) v = some v := by
    intro rounds
    induction rounds with
    | zero => rw [Nat.zero_mul, hop]
    | succ rounds ih => rw [Nat.succ_mul, hop_add, ih, Option.bind_some, hback]
  have hfar : σ.hop (m + n * (k + 1)) t = some v := by
    rw [hop_add, hv, Option.bind_some, hround]
  have hle : n ≤ m + n * (k + 1) :=
    Nat.le_add_left_of_le (Nat.le_mul_of_pos_right n (Nat.succ_pos k))
  obtain ⟨u, hu, -⟩ := exists_hop_of_le hle hfar
  exact ⟨u, hu⟩

/-- A term that a chain passes twice lies on a cycle. -/
theorem cyclic_of_hop_eq_hop {i j : Nat} (hij : i < j) (hi : σ.hop i t = some u)
    (hj : σ.hop j t = some u) : σ.Cyclic t := by
  obtain ⟨v, hv, hback⟩ := exists_hop_of_le (Nat.le_of_lt hij) hj
  obtain rfl : v = u := Option.some.inj (hv.symm.trans hi)
  refine ⟨i, j - i - 1, v, hi, ?_⟩
  rwa [Nat.sub_add_cancel (Nat.sub_pos_of_lt hij)]

/-- A chain with more hops than there are bindings passes a bound variable twice. -/
theorem exists_hop_eq_hop (h : σ.hop (σ.size + 1) t = some u) :
    ∃ i j v, i < j ∧ j ≤ σ.size ∧ σ.hop i t = some v ∧ σ.hop j t = some v := by
  have hmaps : Set.MapsTo (fun n => σ.hop n t) (Finset.range (σ.size + 1))
      (σ.keys.map fun x => some (Term.var x)).toFinset := by
    intro n hn
    have hle : n ≤ σ.size := Nat.le_of_lt_succ (Finset.mem_range.1 hn)
    obtain ⟨v, hv, hrest⟩ := exists_hop_of_le (Nat.le_succ_of_le hle) h
    rw [Nat.succ_sub hle] at hrest
    obtain ⟨w, hnext, -⟩ := hop_succ_eq_some_iff.1 hrest
    obtain ⟨x, hx, rfl⟩ := exists_key_of_next? hnext
    exact List.mem_toFinset.2 (List.mem_map.2 ⟨x, hx, hv.symm⟩)
  have hcard : (σ.keys.map fun x => some (Term.var x)).toFinset.card <
      (Finset.range (σ.size + 1)).card := by
    refine Nat.lt_of_le_of_lt (List.toFinset_card_le _) ?_
    simp [keys, size]
  obtain ⟨i, hi, j, hj, hne, heq⟩ := Finset.exists_ne_map_eq_of_card_lt_of_maps_to hcard hmaps
  have hi : i ≤ σ.size := Nat.le_of_lt_succ (Finset.mem_range.1 hi)
  have hj : j ≤ σ.size := Nat.le_of_lt_succ (Finset.mem_range.1 hj)
  obtain ⟨v, hv, -⟩ := exists_hop_of_le (Nat.le_succ_of_le hj) h
  have hw : σ.hop i t = some v := heq.trans hv
  rcases Nat.lt_or_gt_of_ne hne with hij | hij
  · exact ⟨i, j, v, hij, hj, hw, hv⟩
  · exact ⟨j, i, v, hij, hi, hv, hw⟩

theorem cyclic_of_hop (h : σ.hop (σ.size + 1) t = some u) : σ.Cyclic t := by
  obtain ⟨i, j, v, hij, -, hi, hj⟩ := exists_hop_eq_hop h
  exact cyclic_of_hop_eq_hop hij hi hj

/-- From a place that is passed twice on, the chain repeats itself. -/
theorem hop_periodic {i j m : Nat} (hij : i ≤ j) (him : i ≤ m) (h : σ.hop i t = σ.hop j t) :
    σ.hop (m + (j - i)) t = σ.hop m t := by
  have hlate : m + (j - i) = j + (m - i) := by omega
  have hearly : i + (m - i) = m := Nat.add_sub_of_le him
  rw [hlate, hop_add, ← h, ← hop_add, hearly]

/-- A chain with more hops than there are bindings has come round to a term that leads back to
itself, however long the way to the cycle is. -/
theorem exists_hop_eq_self (h : σ.hop (σ.size + 1) t = some u) :
    ∃ n, σ.hop (n + 1) u = some u := by
  obtain ⟨i, j, v, hij, hj, hi, hback⟩ := exists_hop_eq_hop h
  have hperiod := hop_periodic (m := σ.size + 1) (Nat.le_of_lt hij) (by omega)
    (hi.trans hback.symm)
  rw [hop_add, h, Option.bind_some] at hperiod
  refine ⟨j - i - 1, ?_⟩
  rwa [Nat.sub_add_cancel (Nat.sub_pos_of_lt hij)]

/-- Following a chain fails on cycles only, and on every cycle. -/
theorem exists_follow_eq_error_iff : (∃ e, σ.follow t = .error e) ↔ σ.Cyclic t := by
  constructor
  · rintro ⟨e, he⟩
    obtain ⟨u, -, hu, -⟩ := followFor_eq_error_iff.1 he
    exact cyclic_of_hop hu
  · intro h
    obtain ⟨w, hw⟩ := h.exists_hop (σ.size + 2)
    obtain ⟨u, hu, hrest⟩ := exists_hop_of_le (Nat.le_succ (σ.size + 1)) hw
    rw [Nat.succ_sub (Nat.le_refl _), Nat.sub_self] at hrest
    obtain ⟨v, hv, -⟩ := hop_succ_eq_some_iff.1 hrest
    exact ⟨⟨u.name⟩, followFor_eq_error_iff.2 ⟨u, v, hu, hv, rfl⟩⟩

theorem exists_follow_eq_ok_iff : (∃ u, σ.follow t = .ok u) ↔ ¬σ.Cyclic t := by
  rw [← exists_follow_eq_error_iff]
  cases σ.follow t <;> simp

/-- The chain of a term ends after the given number of hops, in a constant or an unbound
variable. -/
def EndsIn (σ : Substitution) (t : Term) (hops : Nat) (u : Term) : Prop :=
  σ.hop hops t = some u ∧ σ.next? u = none

/-- The chain of a term reaches neither a constant nor an unbound variable. -/
def Endless (σ : Substitution) (t : Term) : Prop := ∀ hops u, ¬σ.EndsIn t hops u

/-- No hop leads away from the end of a chain. -/
theorem eq_of_hop_of_next?_none {n : Nat} (hend : σ.next? t = none) (h : σ.hop n t = some u) :
    n = 0 ∧ u = t := by
  cases n with
  | zero => exact ⟨rfl, (Option.some.inj h).symm⟩
  | succ n =>
      obtain ⟨v, hnext, -⟩ := hop_succ_eq_some_iff.1 h
      cases hend.symm.trans hnext

theorem EndsIn.le {m n : Nat} (h : σ.EndsIn t m s) (h' : σ.EndsIn t n u) : n ≤ m := by
  by_contra hlt
  obtain ⟨v, hv, hrest⟩ := exists_hop_of_le (Nat.le_of_not_le hlt) h'.1
  obtain rfl : v = s := Option.some.inj (hv.symm.trans h.1)
  have hzero := (eq_of_hop_of_next?_none h.2 hrest).1
  omega

theorem endless_iff_cyclic : σ.Endless t ↔ σ.Cyclic t := by
  constructor
  · intro h
    by_contra hacyclic
    obtain ⟨u, hu⟩ := exists_follow_eq_ok_iff.2 hacyclic
    obtain ⟨n, -, hhop, hend⟩ := followFor_eq_ok_iff.1 hu
    exact h n u ⟨hhop, hend⟩
  · rintro h n u ⟨hhop, hend⟩
    obtain ⟨v, hv⟩ := h.exists_hop (n + 1)
    rw [hop_add, hhop, Option.bind_some] at hv
    cases (eq_of_hop_of_next?_none hend hv).1

/-- A chain that ends has no more hops than there are bindings. -/
theorem EndsIn.le_size {n : Nat} (h : σ.EndsIn t n u) : n ≤ σ.size := by
  by_contra hlt
  obtain ⟨v, hv, -⟩ := exists_hop_of_le (Nat.lt_of_not_le hlt) h.1
  exact endless_iff_cyclic.2 (cyclic_of_hop hv) n u h

/-- A limit is reached on the chains without an end and on those that end behind it. -/
theorem exists_followFor_eq_error_iff {limit : Nat} :
    (∃ e, σ.followFor limit t = .error e) ↔
      σ.Endless t ∨ ∃ n u, σ.EndsIn t n u ∧ limit < n := by
  constructor
  · rintro ⟨e, he⟩
    refine or_iff_not_imp_left.2 fun h => ?_
    obtain ⟨n, u, hend⟩ : ∃ n u, σ.EndsIn t n u := by simpa [Endless] using h
    refine ⟨n, u, hend, Nat.lt_of_not_le fun hle => ?_⟩
    cases he.symm.trans (followFor_of_hop hle hend.1 hend.2)
  · intro h
    cases hfollow : σ.followFor limit t with
    | error e => exact ⟨e, rfl⟩
    | ok u =>
        obtain ⟨n, hn, hhop, hend⟩ := followFor_eq_ok_iff.1 hfollow
        obtain hendless | ⟨m, v, hm, hlt⟩ := h
        · exact absurd ⟨hhop, hend⟩ (hendless n u)
        · exact absurd (EndsIn.le ⟨hhop, hend⟩ hm) (by omega)

/-- Following a chain without a limit of the caller's fails exactly if the chain has no end, and
then names a variable of the chain that leads back to itself. A chain that has an end is followed
to it, and from there leads nowhere else. Under a limit of the caller's, where a negative number
counts as zero, it fails exactly if the chain has no end or more hops than the limit, and otherwise
leads to the same end. -/
theorem follow_detects_cycles (σ : Substitution) (t : Term) :
    ((∃ e, σ.followWithin none t = .error e) ↔ σ.Endless t) ∧
      (∀ e, σ.followWithin none t = .error e → ∃ x, e.message = "cyclic substitution at " ++ x ∧
        (∃ m, σ.hop m t = some (.var x)) ∧ ∃ n, σ.hop (n + 1) (.var x) = some (.var x)) ∧
      (∀ n u, σ.EndsIn t n u →
        σ.followWithin none t = .ok u ∧ σ.followWithin none u = .ok u) ∧
      ∀ limit : Int,
        ((∃ e, σ.followWithin (some limit) t = .error e) ↔
          σ.Endless t ∨ ∃ n u, σ.EndsIn t n u ∧ max limit 0 < n) ∧
        ∀ n u, σ.EndsIn t n u → n ≤ max limit 0 → σ.followWithin (some limit) t = .ok u := by
  have hbound : ∀ (limit : Int) (n : Nat), n ≤ max limit 0 ↔ n ≤ limit.toNat := by omega
  refine ⟨?_, ?_, ?_, fun limit => ⟨?_, ?_⟩⟩
  · exact exists_follow_eq_error_iff.trans endless_iff_cyclic.symm
  · intro e he
    obtain ⟨u, v, hu, hnext, rfl⟩ := followFor_eq_error_iff.1 he
    obtain ⟨x, -, rfl⟩ := exists_key_of_next? hnext
    exact ⟨x, rfl, ⟨_, hu⟩, exists_hop_eq_self hu⟩
  · intro n u hend
    have hle : n ≤ σ.size + 1 := Nat.le_succ_of_le hend.le_size
    exact ⟨followFor_of_hop hle hend.1 hend.2, followFor_of_next?_none hend.2 _⟩
  · rw [followWithin, exists_followFor_eq_error_iff]
    simp only [← not_le, hbound]
  · intro n u hend hle
    exact followFor_of_hop ((hbound limit n).1 hle) hend.1 hend.2

/-- The chain of `x` runs into the cycle of `y` and `z`. That of `u` has two hops, and a limit of
one is not enough for it. -/
theorem follow_detects_cycles_behind_tail :
    let σ := ofList [("x", .var "y"), ("y", .var "z"), ("z", .var "y"), ("u", .var "v"),
      ("v", .const "a")]
    (∃ e, σ.followWithin none (.var "x") = .error e) ∧
      (∃ e, σ.followWithin none (.var "x") = .error e ∧ ∃ x,
        e.message = "cyclic substitution at " ++ x ∧ ∃ n, σ.hop (n + 1) (.var x) = some (.var x)) ∧
      σ.followWithin none (.var "u") = .ok (.const "a") ∧
      σ.followWithin (some 2) (.var "u") = .ok (.const "a") ∧
      (∃ e, σ.followWithin (some 1) (.var "u") = .error e) ∧
      ∃ e, σ.followWithin (some (-1)) (.var "u") = .error e := by
  intro σ
  have hx : σ.Endless (.var "x") := endless_iff_cyclic.2 ⟨1, 1, .var "y", rfl, rfl⟩
  have hu : σ.EndsIn (.var "u") 2 (.const "a") := ⟨rfl, rfl⟩
  obtain ⟨hfails, hnamed, -, -⟩ := follow_detects_cycles σ (.var "x")
  obtain ⟨-, -, hends, hlimits⟩ := follow_detects_cycles σ (.var "u")
  obtain ⟨e, he⟩ := hfails.2 hx
  obtain ⟨x, hmessage, -, hback⟩ := hnamed e he
  exact ⟨⟨e, he⟩, ⟨e, he, x, hmessage, hback⟩, (hends 2 _ hu).1, (hlimits 2).2 2 _ hu (by decide),
    (hlimits 1).1.2 (.inr ⟨2, _, hu, by decide⟩), (hlimits (-1)).1.2 (.inr ⟨2, _, hu, by decide⟩)⟩

/-- A new binding keeps every chain as far as it went. -/
theorem hop_insert_of_unbound {x : String} (b : Term) (hx : σ.get? x = none) {n : Nat}
    (h : σ.hop n s = some t) : (σ.insert x b).hop n s = some t := by
  induction n generalizing s with
  | zero => exact h
  | succ n ih =>
      obtain ⟨u, hnext, hhop⟩ := hop_succ_eq_some_iff.1 h
      have hs : s ≠ .var x := by
        rintro rfl
        simp [next?, hx] at hnext
      refine hop_succ_eq_some_iff.2 ⟨u, ?_, ih hhop⟩
      rw [next?_insert, if_neg hs, hnext]

/-- Binding an unbound variable to the end of another chain makes and breaks no cycle. -/
theorem cyclic_insert_iff {x : String} {b : Term} (hx : σ.get? x = none) (hb : σ.next? b = none)
    (hne : b ≠ .var x) : (σ.insert x b).Cyclic t ↔ σ.Cyclic t := by
  constructor
  · rw [← not_imp_not, ← exists_follow_eq_ok_iff, ← exists_follow_eq_ok_iff]
    rintro ⟨u, hu⟩
    exact ⟨_, follow_insert hx hb hne hu⟩
  · rintro ⟨m, n, u, hu, hback⟩
    exact ⟨m, n, u, hop_insert_of_unbound b hx hu, hop_insert_of_unbound b hx hback⟩

/-- Unification fails to answer only where a chain cannot be followed. -/
theorem exists_unify_eq_error_iff :
    (∃ e, σ.unify s t = .error e) ↔ σ.Cyclic s ∨ σ.Cyclic t := by
  rw [← exists_follow_eq_error_iff, ← exists_follow_eq_error_iff]
  cases ha : σ.follow s with
  | error e => simp [unify, ha, bind, Except.bind]
  | ok a =>
      cases hb : σ.follow t with
      | error e => simp [unify, ha, hb, bind, Except.bind]
      | ok b =>
          simp only [unify, ha, hb, bind, Except.bind, pure, Except.pure]
          split
          · simp
          · split <;> simp

/-- A successful unification binds at most one variable, which was unbound, behind all others. -/
theorem unify_appends (h : σ.unify s t = .ok (some τ)) :
    τ = σ ∨ ∃ x b, σ.get? x = none ∧ τ.bindings = σ.bindings ++ [(x, b)] := by
  obtain ⟨-, -, -, -, ⟨-, rfl⟩ | ⟨x, b, -, -, hx, -, rfl⟩⟩ := unify_cases h
  · exact .inl rfl
  · exact .inr ⟨x, b, hx, bindings_insert_of_unbound b hx⟩

theorem cyclic_unify_iff (h : σ.unify s t = .ok (some τ)) : τ.Cyclic u ↔ σ.Cyclic u := by
  obtain ⟨-, -, -, -, ⟨-, rfl⟩ | ⟨x, b, -, hne, hx, hb, rfl⟩⟩ := unify_cases h
  · exact Iff.rfl
  · exact cyclic_insert_iff hx hb hne

end Substitution

/-- A call that extends a substitution. -/
inductive Unification where
  | terms (s t : Term)
  | literals (l m : Literal)
  deriving DecidableEq, Repr

def Unification.perform (σ : Substitution) :
    Unification → Except CyclicChain (Option Substitution)
  | terms s t => σ.unify s t
  | literals l m => σ.unifyLiterals l m

namespace Substitution

/-- Makes the calls one after the other, each under what the successes before it have bound. -/
def unifyAll (σ : Substitution) : List Unification → Except CyclicChain Substitution
  | [] => .ok σ
  | call :: calls => do
    match ← call.perform σ with
    | none => σ.unifyAll calls
    | some τ => τ.unifyAll calls

theorem Terminates.perform_ne_error {σ : Substitution} (h : σ.Terminates) (call : Unification)
    (e : CyclicChain) : call.perform σ ≠ .error e := by
  cases call with
  | terms s t => exact h.unify_ne_error s t e
  | literals l m => exact h.unifyLiterals_ne_error l m e

theorem Terminates.perform {σ τ : Substitution} (h : σ.Terminates) {call : Unification}
    (hcall : call.perform σ = .ok (some τ)) : τ.Terminates := by
  cases call with
  | terms s t => exact h.unify hcall
  | literals l m => exact h.unifyLiterals hcall

/-- Where all chains end, every sequence of calls is answered, and all chains end after it. -/
theorem Terminates.exists_unifyAll {σ : Substitution} (h : σ.Terminates)
    (calls : List Unification) : ∃ τ, σ.unifyAll calls = .ok τ ∧ τ.Terminates := by
  induction calls generalizing σ with
  | nil => exact ⟨σ, rfl, h⟩
  | cons call calls ih =>
      cases hcall : call.perform σ with
      | error e => exact absurd hcall (h.perform_ne_error call e)
      | ok r =>
          cases r with
          | none => simpa [unifyAll, hcall, bind, Except.bind] using ih h
          | some ρ => simpa [unifyAll, hcall, bind, Except.bind] using ih (h.perform hcall)

end Substitution

/-- Under every substitution, also one with cycles, unifying two terms fails to answer exactly when
the chain of one of them is cyclic. What it answers is the substitution it was given, or that with a
binding of an unbound variable behind the others, and the same chains are cyclic. From the empty
substitution every sequence of unifications is therefore answered, and every chain has an end. -/
theorem unification_makes_no_cycle :
    (∀ (σ : Substitution) (s t : Term),
      ((∃ e, σ.unify s t = .error e) ↔ σ.Cyclic s ∨ σ.Cyclic t) ∧
        ∀ τ, σ.unify s t = .ok (some τ) →
          (τ = σ ∨ ∃ x b, σ.get? x = none ∧ τ.bindings = σ.bindings ++ [(x, b)]) ∧
            ∀ u, τ.Cyclic u ↔ σ.Cyclic u) ∧
      ∀ calls : List Unification, ∃ τ, (∅ : Substitution).unifyAll calls = .ok τ ∧
        ∀ t, ¬τ.Cyclic t ∧
          ∃ n u, τ.hop n t = some u ∧ τ.next? u = none ∧ τ.follow t = .ok u := by
  constructor
  · intro σ s t
    refine ⟨Substitution.exists_unify_eq_error_iff, fun τ h => ?_⟩
    exact ⟨Substitution.unify_appends h, fun u => Substitution.cyclic_unify_iff h⟩
  · intro calls
    obtain ⟨τ, hτ, hends⟩ := Substitution.terminates_empty.exists_unifyAll calls
    refine ⟨τ, hτ, fun t => ?_⟩
    obtain ⟨u, hu⟩ := hends t
    obtain ⟨n, -, hhop, hend⟩ := Substitution.followFor_eq_ok_iff.1 hu
    exact ⟨Substitution.exists_follow_eq_ok_iff.1 ⟨u, hu⟩, n, u, hhop, hend, hu⟩

/-- Next to the cycle of `x` and `y`, the variable `z` is bound and its chain ends; `x` is not
unified with anything. -/
theorem unification_makes_no_cycle_beside_one :
    let σ := Substitution.ofList [("x", .var "y"), ("y", .var "x")]
    let τ := Substitution.ofList [("x", .var "y"), ("y", .var "x"), ("z", .const "a")]
    σ.unify (.var "z") (.const "a") = .ok (some τ) ∧ τ.Cyclic (.var "x") ∧
      ¬τ.Cyclic (.var "z") ∧ ∃ e, σ.unify (.var "z") (.var "x") = .error e := by
  intro σ τ
  have hx : σ.Cyclic (.var "x") := ⟨0, 1, .var "x", rfl, rfl⟩
  have hz : ¬σ.Cyclic (.var "z") := Substitution.exists_follow_eq_ok_iff.1 ⟨.var "z", rfl⟩
  have hτ : σ.unify (.var "z") (.const "a") = .ok (some τ) := rfl
  obtain ⟨-, hcyclic⟩ := (unification_makes_no_cycle.1 σ _ _).2 τ hτ
  have herror := (unification_makes_no_cycle.1 σ (.var "z") (.var "x")).1
  exact ⟨hτ, (hcyclic _).2 hx, fun h => hz ((hcyclic _).1 h), herror.2 (.inr hx)⟩

end Resolution
