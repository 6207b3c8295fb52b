import Resolution.Resolvent

/-!
# What unifiers do to terms, and the resolvents of two clauses

Unification binds an unbound variable to an end of a chain, so a new binding only redirects the
chains that ended at its variable. Two terms whose chains end alike therefore stay together under
every later binding, and the unifier of two literals makes them equal argument by argument.

So the two literals that a resolvent resolves on become complementary under its unifier, and it
holds what is left of either clause.
-/

namespace Resolution

namespace Substitution

@[simp] theorem follow_const (σ : Substitution) (a : String) :
    σ.follow (.const a) = .ok (.const a) :=
  followFor_of_next?_none rfl _

@[simp] theorem follow_empty (t : Term) : (∅ : Substitution).follow t = .ok t := by
  cases t <;> rfl

/-- Unification fails only on chains that end at different constants. -/
theorem unify_none_cases {σ : Substitution} {s t : Term} (h : σ.unify s t = .ok none) :
    ∃ c d, c ≠ d ∧ σ.follow s = .ok (.const c) ∧ σ.follow t = .ok (.const d) := by
  cases ha : σ.follow s with
  | error e => simp [unify, ha, bind, Except.bind] at h
  | ok a =>
      cases hb : σ.follow t with
      | error e => simp [unify, ha, hb, bind, Except.bind] at h
      | ok b =>
          simp only [unify, ha, hb, bind, Except.bind, pure, Except.pure] at h
          split at h
          · simp at h
          · next hab =>
              cases a with
              | var x => simp at h
              | const c =>
                  cases b with
                  | var y => simp at h
                  | const d => exact ⟨c, d, fun hcd => hab (congrArg Term.const hcd), rfl, rfl⟩

/-- After unification the chains of the two terms end alike. -/
theorem follow_eq_of_unify {σ τ : Substitution} {s t : Term}
    (h : σ.unify s t = .ok (some τ)) : τ.follow s = τ.follow t := by
  obtain ⟨a, b, ha, hb, ⟨rfl, rfl⟩ | ⟨x, e, hab, hne, hx, he, rfl⟩⟩ := unify_cases h
  · rw [ha, hb]
  · rw [follow_insert hx he hne ha, follow_insert hx he hne hb]
    rcases hab with ⟨rfl, rfl⟩ | ⟨rfl, rfl⟩
    · rw [if_pos rfl, if_neg hne]
    · rw [if_neg hne, if_pos rfl]

/-- Chains that ended alike before a unification end alike after it. -/
theorem follow_eq_mono_of_unify {σ τ : Substitution} (hσ : σ.Terminates) {s t : Term}
    (h : σ.unify s t = .ok (some τ)) {p q : Term} (hpq : σ.follow p = σ.follow q) :
    τ.follow p = τ.follow q := by
  obtain ⟨a, b, -, -, ⟨-, rfl⟩ | ⟨x, e, -, hne, hx, he, rfl⟩⟩ := unify_cases h
  · exact hpq
  · obtain ⟨k, hk⟩ := hσ p
    rw [follow_insert hx he hne hk, follow_insert hx he hne (hpq ▸ hk)]

theorem follow_eq_mono_of_unifyArgs {σ τ : Substitution} (hσ : σ.Terminates) {ss ts : List Term}
    (h : σ.unifyArgs ss ts = .ok (some τ)) {p q : Term} (hpq : σ.follow p = σ.follow q) :
    τ.follow p = τ.follow q := by
  refine (unifyArgs_preserves (P := fun σ => σ.Terminates ∧ σ.follow p = σ.follow q)
    (fun σ τ s t _ _ hs hσ => ?_) h ⟨hσ, hpq⟩).2
  exact ⟨hσ.1.unify hs, follow_eq_mono_of_unify hσ.1 hs hσ.2⟩

theorem map_follow_eq_of_unifyArgs {σ τ : Substitution} (hσ : σ.Terminates) {ss ts : List Term}
    (hlen : ss.length = ts.length) (h : σ.unifyArgs ss ts = .ok (some τ)) :
    ss.map τ.follow = ts.map τ.follow := by
  induction ss generalizing σ ts with
  | nil =>
      cases ts with
      | nil => rfl
      | cons t ts => simp at hlen
  | cons s ss ih =>
      cases ts with
      | nil => simp at hlen
      | cons t ts =>
          obtain ⟨ρ, hs, hrest⟩ := unifyArgs_cons_cases h
          have hhead : τ.follow s = τ.follow t :=
            follow_eq_mono_of_unifyArgs (hσ.unify hs) hrest (follow_eq_of_unify hs)
          have htail := ih (hσ.unify hs) (Nat.succ.inj hlen) hrest
          rw [List.map_cons, List.map_cons, hhead, htail]

/-- Equal argument lists are unified without any binding. -/
theorem unifyArgs_self (ts : List Term) :
    (∅ : Substitution).unifyArgs ts ts = .ok (some ∅) := by
  induction ts with
  | nil => rfl
  | cons t ts ih => simpa [unifyArgs, unify, bind, Except.bind, pure, Except.pure] using ih

end Substitution

namespace Unifier

@[simp] theorem apply_const (u : Unifier) (a : String) : u.apply (.const a) = .const a := by
  have h := u.follow_eq (.const a)
  rw [Substitution.follow_const] at h
  exact (Except.ok.inj h).symm

@[simp] theorem applyLiteral_negate (u : Unifier) (l : Literal) :
    u.applyLiteral l.negate = (u.applyLiteral l).negate := rfl

/-- Applying the bindings of a unifier meets no cycle. -/
theorem toSubstitution_applyLiteral (u : Unifier) (l : Literal) :
    u.toSubstitution.applyLiteral l = .ok (u.applyLiteral l) := by
  have h : u.follow = fun t => pure (u.apply t) := funext u.follow_eq
  rw [Substitution.applyLiteral, h, List.mapM_pure]
  rfl

theorem toSubstitution_applyClause (u : Unifier) (c : Clause) :
    u.toSubstitution.applyClause c = .ok (u.applyClause c) := by
  have h : u.toSubstitution.applyLiteral = fun l => pure (u.applyLiteral l) :=
    funext u.toSubstitution_applyLiteral
  rw [Substitution.applyClause, h, List.mapM_pure]
  rfl

/-- What unification binds from the start are the bindings of the unifier. -/
theorem unifyLiterals_eq_some_iff {l m : Literal} {σ : Substitution} :
    Substitution.unifyLiterals ∅ l m = .ok (some σ) ↔
      ∃ u : Unifier, ofLiterals l m = some u ∧ u.toSubstitution = σ := by
  constructor
  · intro h
    exact ⟨⟨σ, Substitution.terminates_empty.unifyLiterals h⟩, ofLiterals_eq_some_iff.2 h, rfl⟩
  · rintro ⟨u, hu, rfl⟩
    exact ofLiterals_eq_some_iff.1 hu

theorem ofLiterals_eq_none_iff {l m : Literal} :
    ofLiterals l m = none ↔ Substitution.unifyLiterals ∅ l m = .ok none := by
  cases h : Substitution.unifyLiterals ∅ l m with
  | error e => exact absurd h (Substitution.terminates_empty.unifyLiterals_ne_error l m e)
  | ok r =>
      cases r with
      | some σ =>
          obtain ⟨u, hu, -⟩ := unifyLiterals_eq_some_iff.1 h
          simp [hu]
      | none =>
          refine iff_of_true ?_ rfl
          rw [Option.eq_none_iff_forall_ne_some]
          intro u hu
          rw [ofLiterals_eq_some_iff.1 hu] at h
          simp at h

/-- The unifier of two literals makes their arguments equal. -/
theorem map_apply_eq {l m : Literal} {u : Unifier} (h : ofLiterals l m = some u) :
    l.name = m.name ∧ l.args.map u.apply = m.args.map u.apply := by
  have hu := ofLiterals_eq_some_iff.1 h
  unfold Substitution.unifyLiterals at hu
  split at hu
  · next hlm =>
      have hmap := Substitution.map_follow_eq_of_unifyArgs Substitution.terminates_empty hlm.2 hu
      have hfollow : u.follow = Except.ok ∘ u.apply := funext u.follow_eq
      rw [hfollow, ← List.map_map, ← List.map_map] at hmap
      exact ⟨hlm.1, (List.map_inj_right fun _ _ => Except.ok.inj).1 hmap⟩
  · simp at hu

/-- The unifier without bindings. -/
def identity : Unifier := ⟨∅, Substitution.terminates_empty⟩

theorem apply_identity (t : Term) : identity.apply t = t :=
  Except.ok.inj ((identity.follow_eq t).symm.trans (Substitution.follow_empty t))

@[simp] theorem applyLiteral_identity (l : Literal) : identity.applyLiteral l = l := by
  have h : identity.apply = id := funext apply_identity
  simp [applyLiteral, h]

@[simp] theorem applyClause_identity (c : Clause) : identity.applyClause c = c := by
  have h : identity.applyLiteral = id := funext applyLiteral_identity
  simp [applyClause, h]

theorem ofLiterals_self (l : Literal) : ofLiterals l l = some identity := by
  refine ofLiterals_eq_some_iff.2 ?_
  rw [Substitution.unifyLiterals, if_pos ⟨rfl, rfl⟩]
  exact Substitution.unifyArgs_self l.args

end Unifier

/-- The unifier makes the two literals complementary. -/
theorem Resolvent.complementary {c d : Clause} {r : Resolvent} (h : r ∈ c.resolve d) :
    r.unifier.applyLiteral r.left = (r.unifier.applyLiteral r.right).negate := by
  obtain ⟨-, -, hsign, hu, -⟩ := Clause.resolve_cases h
  obtain ⟨hname, hargs⟩ := Unifier.map_apply_eq hu
  have hnegated : r.left.negated = !r.right.negated := by
    cases hl : r.left.negated <;> cases hr : r.right.negated <;> simp_all
  simp only [Unifier.applyLiteral, Literal.negate, Literal.mk.injEq]
  exact ⟨hname, hargs, hnegated⟩

theorem Clause.mem_remaining {c : Clause} {u : Unifier} {l k : Literal} :
    k ∈ c.remaining u l ↔ k ∈ (u.applyClause c).literals ∧ k ≠ u.applyLiteral l := by
  simp [Clause.remaining]

/-- The literals of a resolvent: what is left of either clause under the unifier. -/
theorem Resolvent.mem_literals_iff {c d : Clause} {r : Resolvent} (h : r ∈ c.resolve d)
    {k : Literal} :
    k ∈ r.clause.literals ↔
      (k ∈ (r.unifier.applyClause c).literals ∧ k ≠ r.unifier.applyLiteral r.left) ∨
        (k ∈ (r.unifier.applyClause d).literals ∧ k ≠ r.unifier.applyLiteral r.right) := by
  obtain ⟨-, -, -, -, hclause⟩ := Clause.resolve_cases h
  rw [hclause, List.mem_eraseDups, List.mem_append, Clause.mem_remaining, Clause.mem_remaining]

/-- A literal and its negation resolve without any binding. -/
theorem Clause.exists_resolvent_of_negate {c d : Clause} {l : Literal} (hc : l ∈ c.literals)
    (hd : l.negate ∈ d.literals) :
    ∃ r ∈ c.resolve d, ∀ k, k ∈ r.clause.literals ↔
      (k ∈ c.literals ∧ k ≠ l) ∨ (k ∈ d.literals ∧ k ≠ l.negate) := by
  have hsign : l.name = l.negate.name ∧ l.negated ≠ l.negate.negated := by
    simp [Literal.negate]
  have hu : Unifier.ofLiterals l l.negate.negate = some Unifier.identity := by
    rw [Literal.negate_negate]
    exact Unifier.ofLiterals_self l
  have hr : (⟨⟨(c.remaining .identity l ++ d.remaining .identity l.negate).eraseDups⟩, l, l.negate,
      .identity⟩ : Resolvent) ∈ c.resolve d :=
    Clause.mem_resolve.2 ⟨l, hc, l.negate, hd,
      Clause.resolveOn?_eq_some_iff.2 ⟨hsign, Unifier.identity, hu, rfl⟩⟩
  refine ⟨_, hr, fun k => ?_⟩
  rw [Resolvent.mem_literals_iff hr]
  simp

end Resolution
