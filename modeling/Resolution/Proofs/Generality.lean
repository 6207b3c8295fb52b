import Resolution.Proofs.Chains

/-!
# Most general unifiers

A map from variables to terms respects a substitution if it does not tell a bound variable from what
the variable is bound to. Such a map sees no difference between a term and the end of its chain.
Unifying two terms adds one demand to those of the bindings made before: the maps that respect the
result are those that respected the bindings and make the two terms equal. Over whole argument lists
this says that unification finds a most general unifier and fails only if there is no unifier.
-/

namespace Resolution

/-- The term with every variable replaced by what the map gives for it. -/
def Term.under (θ : String → Term) : Term → Term
  | var x => θ x
  | const a => const a

/-- The map makes the two argument lists equal. -/
def Unifies (θ : String → Term) (ss ts : List Term) : Prop :=
  ss.map (Term.under θ) = ts.map (Term.under θ)

theorem unifies_cons {θ : String → Term} {s t : Term} {ss ts : List Term} :
    Unifies θ (s :: ss) (t :: ts) ↔ s.under θ = t.under θ ∧ Unifies θ ss ts := by
  simp [Unifies]

namespace Substitution

variable {σ τ : Substitution} {θ : String → Term} {s t : Term} {ss ts : List Term}

/-- The map gives for every bound variable what it makes of the term bound to it. -/
def RespectedBy (σ : Substitution) (θ : String → Term) : Prop :=
  ∀ x t, σ.get? x = some t → θ x = t.under θ

theorem respectedBy_empty (θ : String → Term) : (∅ : Substitution).RespectedBy θ := by
  intro x t h
  simp at h

theorem respectedBy_insert_iff {x : String} {b : Term} (hx : σ.get? x = none) :
    (σ.insert x b).RespectedBy θ ↔ σ.RespectedBy θ ∧ θ x = b.under θ := by
  constructor
  · intro h
    refine ⟨fun y t hy => ?_, h x b (by rw [get?_insert, if_pos rfl])⟩
    have hne : y ≠ x := by
      intro e
      rw [e, hx] at hy
      cases hy
    exact h y t (by rw [get?_insert, if_neg hne, hy])
  · intro h y t hy
    rw [get?_insert] at hy
    split at hy
    · next e =>
        rw [e, ← Option.some.inj hy]
        exact h.2
    · exact h.1 y t hy

/-- A respecting map does not see a hop. -/
theorem RespectedBy.under_next? (h : σ.RespectedBy θ) (hnext : σ.next? s = some t) :
    t.under θ = s.under θ := by
  cases s with
  | var x => exact (h x t hnext).symm
  | const a => simp [next?] at hnext

theorem RespectedBy.under_hop (h : σ.RespectedBy θ) {n : Nat} (hhop : σ.hop n s = some t) :
    t.under θ = s.under θ := by
  induction n generalizing s with
  | zero => rw [Option.some.inj hhop]
  | succ n ih =>
      obtain ⟨u, hnext, hrest⟩ := hop_succ_eq_some_iff.1 hhop
      rw [ih hrest, h.under_next? hnext]

theorem RespectedBy.under_follow (h : σ.RespectedBy θ) (hfollow : σ.follow s = .ok t) :
    t.under θ = s.under θ := by
  obtain ⟨n, -, hhop, -⟩ := followFor_eq_ok_iff.1 hfollow
  exact h.under_hop hhop

/-- The maps that respect the result of a unification are those that respected the substitution and
make the two terms equal. -/
theorem respectedBy_unify_iff (h : σ.unify s t = .ok (some τ)) :
    τ.RespectedBy θ ↔ σ.RespectedBy θ ∧ s.under θ = t.under θ := by
  obtain ⟨a, b, ha, hb, ⟨rfl, rfl⟩ | ⟨x, e, hab, -, hx, -, rfl⟩⟩ := unify_cases h
  · refine ⟨fun hτ => ⟨hτ, ?_⟩, And.left⟩
    rw [← hτ.under_follow ha, ← hτ.under_follow hb]
  · rw [respectedBy_insert_iff hx]
    refine and_congr_right fun hσ => ?_
    rw [← hσ.under_follow ha, ← hσ.under_follow hb]
    rcases hab with ⟨rfl, rfl⟩ | ⟨rfl, rfl⟩
    · exact Iff.rfl
    · exact eq_comm

/-- Two terms that cannot be unified differ under every respecting map. -/
theorem RespectedBy.under_ne_of_unify (h : σ.RespectedBy θ) (hu : σ.unify s t = .ok none) :
    s.under θ ≠ t.under θ := by
  obtain ⟨c, d, hcd, hs, ht⟩ := unify_none_cases hu
  rw [← h.under_follow hs, ← h.under_follow ht]
  intro heq
  exact hcd (Term.const.inj heq)

theorem respectedBy_unifyArgs_iff (hlen : ss.length = ts.length)
    (h : σ.unifyArgs ss ts = .ok (some τ)) :
    τ.RespectedBy θ ↔ σ.RespectedBy θ ∧ Unifies θ ss ts := by
  induction ss generalizing σ ts with
  | nil =>
      cases ts with
      | nil =>
          simp only [unifyArgs, pure, Except.pure, Except.ok.injEq, Option.some.injEq] at h
          simp [h, Unifies]
      | cons t ts => simp at hlen
  | cons s ss ih =>
      cases ts with
      | nil => simp at hlen
      | cons t ts =>
          obtain ⟨ρ, hs, hrest⟩ := unifyArgs_cons_cases h
          rw [ih (Nat.succ.inj hlen) hrest, respectedBy_unify_iff hs, unifies_cons, and_assoc]

theorem RespectedBy.not_unifies_of_unifyArgs (h : σ.RespectedBy θ)
    (hu : σ.unifyArgs ss ts = .ok none) : ¬Unifies θ ss ts := by
  induction ss generalizing σ ts with
  | nil => simp [unifyArgs, pure, Except.pure] at hu
  | cons s ss ih =>
      cases ts with
      | nil => simp [unifyArgs, pure, Except.pure] at hu
      | cons t ts =>
          intro hθ
          obtain ⟨hhead, htail⟩ := unifies_cons.1 hθ
          cases hs : σ.unify s t with
          | error e => simp [unifyArgs, hs, bind, Except.bind] at hu
          | ok r =>
              cases r with
              | none => exact h.under_ne_of_unify hs hhead
              | some ρ =>
                  simp only [unifyArgs, hs, bind, Except.bind] at hu
                  exact ih ((respectedBy_unify_iff hs).2 ⟨h, hhead⟩) hu htail

end Substitution

namespace Unifier

/-- A unifier as a map. -/
def toMap (u : Unifier) : String → Term := fun x => u.apply (.var x)

theorem under_toMap (u : Unifier) (t : Term) : t.under u.toMap = u.apply t := by
  cases t with
  | var x => rfl
  | const a => exact (u.apply_const a).symm

/-- The end of a chain is its own end. -/
theorem apply_apply (u : Unifier) (t : Term) : u.apply (u.apply t) = u.apply t := by
  have hend := Substitution.next?_of_follow (u.follow_eq t)
  have hfollow : u.follow (u.apply t) = .ok (u.apply t) :=
    Substitution.followFor_of_next?_none hend _
  exact Except.ok.inj ((u.follow_eq (u.apply t)).symm.trans hfollow)

variable {l m : Literal} {u : Unifier}

theorem unifies_toMap (h : ofLiterals l m = some u) : Unifies u.toMap l.args m.args := by
  have hunder : Term.under u.toMap = u.apply := funext u.under_toMap
  rw [Unifies, hunder]
  exact (map_apply_eq h).2

/-- The unifier comes from the argument lists alone. -/
theorem unifyArgs_of_ofLiterals (h : ofLiterals l m = some u) :
    l.name = m.name ∧ l.arity = m.arity ∧
      Substitution.unifyArgs ∅ l.args m.args = .ok (some u.toSubstitution) := by
  have hu := ofLiterals_eq_some_iff.1 h
  unfold Substitution.unifyLiterals at hu
  split at hu
  · next hlm => exact ⟨hlm.1, hlm.2, hu⟩
  · simp at hu

/-- Every map that unifies the arguments makes the same of a term and of its end. -/
theorem under_apply (h : ofLiterals l m = some u) {θ : String → Term}
    (hθ : Unifies θ l.args m.args) (t : Term) : (u.apply t).under θ = t.under θ := by
  obtain ⟨-, harity, hargs⟩ := unifyArgs_of_ofLiterals h
  have hrespected : u.RespectedBy θ :=
    (Substitution.respectedBy_unifyArgs_iff harity hargs).2
      ⟨Substitution.respectedBy_empty θ, hθ⟩
  exact hrespected.under_follow (u.follow_eq t)

/-- Two literals have a unifier as soon as some map makes their arguments equal. -/
theorem exists_ofLiterals_iff :
    (∃ u, ofLiterals l m = some u) ↔
      l.name = m.name ∧ l.arity = m.arity ∧ ∃ θ, Unifies θ l.args m.args := by
  constructor
  · rintro ⟨u, hu⟩
    obtain ⟨hname, harity, -⟩ := unifyArgs_of_ofLiterals hu
    exact ⟨hname, harity, u.toMap, unifies_toMap hu⟩
  · rintro ⟨hname, harity, θ, hθ⟩
    cases h : Substitution.unifyArgs ∅ l.args m.args with
    | error e => exact absurd h (Substitution.terminates_empty.unifyArgs_ne_error _ _ e)
    | ok r =>
        cases r with
        | none => exact absurd hθ ((Substitution.respectedBy_empty θ).not_unifies_of_unifyArgs h)
        | some σ =>
            refine ⟨⟨σ, Substitution.terminates_empty.unifyArgs h⟩, ofLiterals_eq_some_iff.2 ?_⟩
            rw [Substitution.unifyLiterals, if_pos ⟨hname, harity⟩, h]

end Unifier

/-- Unifying two literals is always answered. There is a unifier exactly if names and arities agree
and some map from variables to terms makes the argument lists equal. The unifier makes them equal,
applying it twice is applying it once, and every map that makes the lists equal factors through
it. -/
theorem most_general_unifier (l m : Literal) :
    (∀ e, Substitution.unifyLiterals ∅ l m ≠ .error e) ∧
      ((∃ σ, Substitution.unifyLiterals ∅ l m = .ok (some σ)) ↔
        l.name = m.name ∧ l.arity = m.arity ∧ ∃ θ, Unifies θ l.args m.args) ∧
      ∀ σ, Substitution.unifyLiterals ∅ l m = .ok (some σ) →
        (∃ l' m', σ.applyLiteral l = .ok l' ∧ σ.applyLiteral m = .ok m' ∧ l'.args = m'.args) ∧
          ∀ t, ∃ a, σ.follow t = .ok a ∧ σ.follow a = .ok a ∧
            ∀ θ, Unifies θ l.args m.args → a.under θ = t.under θ := by
  refine ⟨Substitution.terminates_empty.unifyLiterals_ne_error l m, ?_, ?_⟩
  · rw [← Unifier.exists_ofLiterals_iff]
    simp only [Unifier.unifyLiterals_eq_some_iff]
    constructor
    · rintro ⟨-, u, hu, -⟩
      exact ⟨u, hu⟩
    · rintro ⟨u, hu⟩
      exact ⟨u.toSubstitution, u, hu, rfl⟩
  · intro σ hσ
    obtain ⟨u, hu, rfl⟩ := Unifier.unifyLiterals_eq_some_iff.1 hσ
    refine ⟨⟨_, _, u.toSubstitution_applyLiteral l, u.toSubstitution_applyLiteral m,
      (Unifier.map_apply_eq hu).2⟩, fun t => ⟨u.apply t, u.follow_eq t, ?_, ?_⟩⟩
    · rw [u.follow_eq, u.apply_apply]
    · intro θ hθ
      exact Unifier.under_apply hu hθ t

/-- The chain of `x` goes over `y` to the constant, so every map that unifies the arguments gives
the constant for `x`. With two constants in place of one there is no such map. -/
theorem most_general_unifier_over_chain :
    let l : Literal := ⟨"P", [.var "x", .var "x", .var "y"], false⟩
    let m : Literal := ⟨"P", [.var "y", .const "a", .var "z"], true⟩
    (∃ σ, Substitution.unifyLiterals ∅ l m = .ok (some σ) ∧
      σ.bindings = [("x", .var "y"), ("y", .const "a"), ("z", .const "a")]) ∧
    (∀ θ, Unifies θ l.args m.args → θ "x" = .const "a") ∧
    ¬∃ θ, Unifies θ l.args [.const "a", .const "b", .var "z"] := by
  intro l m
  obtain ⟨σ, hσ, hbindings⟩ : ∃ σ, Substitution.unifyLiterals ∅ l m = .ok (some σ) ∧
      σ.bindings = [("x", .var "y"), ("y", .const "a"), ("z", .const "a")] := ⟨_, rfl, rfl⟩
  refine ⟨⟨σ, hσ, hbindings⟩, fun θ hθ => ?_, fun hθ => ?_⟩
  · have hfollow : σ.follow (.var "x") = .ok (.const "a") := by
      obtain rfl : σ =
          Substitution.ofList [("x", .var "y"), ("y", .const "a"), ("z", .const "a")] :=
        Substitution.ext hbindings
      rfl
    obtain ⟨a, ha, -, hgeneral⟩ := ((most_general_unifier l m).2.2 σ hσ).2 (.var "x")
    obtain rfl : a = .const "a" := Except.ok.inj (ha.symm.trans hfollow)
    exact (hgeneral θ hθ).symm
  · obtain ⟨τ, hτ⟩ := (most_general_unifier l
      ⟨"P", [.const "a", .const "b", .var "z"], true⟩).2.1.2 ⟨rfl, rfl, hθ⟩
    exact absurd (Except.ok.inj hτ) (by simp)

end Resolution
