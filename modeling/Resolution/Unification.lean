import Resolution.Substitution

/-!
# Unification

Two terms are unified under a substitution by following both chains and, where the ends differ,
binding an end that is a variable to the other end. Literals are unified argument by argument, each
pair under the bindings of the pairs before it; their signs do not matter.

Started from the empty substitution, unification never builds a cycle. The result is therefore a
`Unifier`, a substitution all of whose chains end, and applying it needs no failure case.
-/

namespace Resolution

namespace Substitution

/-- Extends the substitution so that it makes the two terms equal; `none` if nothing can. -/
def unify (σ : Substitution) (s t : Term) : Except CyclicChain (Option Substitution) := do
  let a ← σ.follow s
  let b ← σ.follow t
  if a = b then
    return some σ
  match a, b with
  | .var x, _ => return some (σ.insert x b)
  | _, .var y => return some (σ.insert y a)
  | _, _ => return none

def unifyArgs (σ : Substitution) : List Term → List Term → Except CyclicChain (Option Substitution)
  | s :: ss, t :: ts => do
    match ← σ.unify s t with
    | none => return none
    | some τ => τ.unifyArgs ss ts
  | _, _ => return some σ

/-- Literals of different names or arities do not unify. -/
def unifyLiterals (σ : Substitution) (l m : Literal) : Except CyclicChain (Option Substitution) :=
  if l.name = m.name ∧ l.arity = m.arity then σ.unifyArgs l.args m.args else .ok none

/-- Does every chain end? -/
def Terminates (σ : Substitution) : Prop := ∀ t, ∃ u, σ.follow t = .ok u

theorem terminates_empty : (∅ : Substitution).Terminates := by
  intro t
  cases t with
  | var x => exact ⟨.var x, rfl⟩
  | const a => exact ⟨.const a, rfl⟩

theorem followFor_of_next?_none {σ : Substitution} {t : Term} (h : σ.next? t = none) (hops : Nat) :
    σ.followFor hops t = .ok t := by
  cases hops <;> simp [followFor, h]

/-- What holds at the end of a chain and is carried back over every hop holds at its start. -/
theorem followFor_induction {σ : Substitution} {t : Term} {P : Nat → Term → Prop}
    (last : ∀ hops, σ.next? t = none → P hops t)
    (hop : ∀ hops s u, σ.next? s = some u → P hops u → P (hops + 1) s) {hops : Nat} {s : Term}
    (h : σ.followFor hops s = .ok t) : P hops s := by
  induction hops generalizing s with
  | zero =>
      cases hs : σ.next? s with
      | none =>
          simp only [followFor, hs, Except.ok.injEq] at h
          subst h
          exact last 0 hs
      | some u => simp [followFor, hs] at h
  | succ hops ih =>
      cases hs : σ.next? s with
      | none =>
          simp only [followFor, hs, Except.ok.injEq] at h
          subst h
          exact last (hops + 1) hs
      | some u =>
          simp only [followFor, hs] at h
          exact hop hops s u hs (ih h)

/-- Nothing follows the end of a chain. -/
theorem next?_of_follow {σ : Substitution} {s t : Term} (h : σ.follow s = .ok t) :
    σ.next? t = none :=
  followFor_induction (P := fun _ _ => σ.next? t = none) (fun _ ht => ht) (fun _ _ _ _ ht => ht) h

theorem next?_insert (σ : Substitution) (x : String) (b t : Term) :
    (σ.insert x b).next? t = if t = .var x then some b else σ.next? t := by
  cases t <;> simp [next?, get?_insert]

/-- A new binding prolongs a chain by at most one hop, and only a chain that ended at its
variable. -/
theorem followFor_insert {σ : Substitution} {x : String} {b : Term} (hx : σ.get? x = none)
    (hb : (σ.insert x b).next? b = none) {hops : Nat} {s t : Term}
    (h : σ.followFor hops s = .ok t) :
    (σ.insert x b).followFor (hops + 1) s = .ok (if t = .var x then b else t) := by
  refine followFor_induction (P := fun hops s => (σ.insert x b).followFor (hops + 1) s =
    .ok (if t = .var x then b else t)) (fun hops ht => ?_) (fun hops s u hs ih => ?_) h
  · by_cases e : t = .var x
    · rw [followFor, next?_insert, if_pos e, if_pos e]
      exact followFor_of_next?_none hb _
    · rw [followFor, next?_insert, if_neg e, if_neg e, ht]
  · have e : s ≠ .var x := by
      rintro rfl
      simp [next?, hx] at hs
    rw [followFor, next?_insert, if_neg e, hs]
    exact ih

theorem follow_insert {σ : Substitution} {x : String} {b : Term} (hx : σ.get? x = none)
    (hb : σ.next? b = none) (hne : b ≠ .var x) {s t : Term} (h : σ.follow s = .ok t) :
    (σ.insert x b).follow s = .ok (if t = .var x then b else t) := by
  have hb' : (σ.insert x b).next? b = none := by
    rw [next?_insert, if_neg hne, hb]
  rw [follow, size_insert_of_unbound b hx]
  exact followFor_insert hx hb' h

theorem Terminates.insert {σ : Substitution} (h : σ.Terminates) {x : String} {b : Term}
    (hx : σ.get? x = none) (hb : σ.next? b = none) (hne : b ≠ .var x) :
    (σ.insert x b).Terminates := by
  intro t
  obtain ⟨u, hu⟩ := h t
  exact ⟨_, follow_insert hx hb hne hu⟩

/-- All that a successful unification of two terms can do: nothing when the chains end alike, else
bind one end, a variable, to the other. -/
theorem unify_cases {σ τ : Substitution} {s t : Term} (h : σ.unify s t = .ok (some τ)) :
    ∃ a b, σ.follow s = .ok a ∧ σ.follow t = .ok b ∧
      (a = b ∧ τ = σ ∨
        ∃ x e, (a = .var x ∧ b = e ∨ a = e ∧ b = .var x) ∧ e ≠ .var x ∧ σ.get? x = none ∧
          σ.next? e = none ∧ τ = σ.insert x e) := by
  cases ha : σ.follow s with
  | error e => simp [unify, ha, bind, Except.bind] at h
  | ok a =>
      cases hb : σ.follow t with
      | error e => simp [unify, ha, hb, bind, Except.bind] at h
      | ok b =>
          refine ⟨a, b, rfl, rfl, ?_⟩
          simp only [unify, ha, hb, bind, Except.bind, pure, Except.pure] at h
          split at h
          · next hab =>
              simp only [Except.ok.injEq, Option.some.injEq] at h
              exact .inl ⟨hab, h.symm⟩
          · next hab =>
              split at h
              · next x =>
                  simp only [Except.ok.injEq, Option.some.injEq] at h
                  exact .inr ⟨x, b, .inl ⟨rfl, rfl⟩, fun e => hab e.symm, next?_of_follow ha,
                    next?_of_follow hb, h.symm⟩
              · next y _ =>
                  simp only [Except.ok.injEq, Option.some.injEq] at h
                  exact .inr ⟨y, a, .inr ⟨rfl, rfl⟩, hab, next?_of_follow hb, next?_of_follow ha,
                    h.symm⟩
              · simp at h

/-- The step of `unifyArgs`: the heads are unified first, then the rest under their unifier. -/
theorem unifyArgs_cons_cases {σ τ : Substitution} {s t : Term} {ss ts : List Term}
    (h : σ.unifyArgs (s :: ss) (t :: ts) = .ok (some τ)) :
    ∃ ρ, σ.unify s t = .ok (some ρ) ∧ ρ.unifyArgs ss ts = .ok (some τ) := by
  cases hs : σ.unify s t with
  | error e => simp [unifyArgs, hs, bind, Except.bind] at h
  | ok r =>
      cases r with
      | none => simp [unifyArgs, hs, bind, Except.bind, pure, Except.pure] at h
      | some ρ =>
          simp only [unifyArgs, hs, bind, Except.bind] at h
          exact ⟨ρ, rfl, h⟩

/-- What binding one pair of arguments preserves, unifying the lists preserves. -/
theorem unifyArgs_preserves {P : Substitution → Prop} {ss ts : List Term}
    (step : ∀ (σ τ : Substitution) (s t : Term), s ∈ ss → t ∈ ts →
      σ.unify s t = .ok (some τ) → P σ → P τ)
    {σ τ : Substitution} (h : σ.unifyArgs ss ts = .ok (some τ)) (hσ : P σ) : P τ := by
  induction ss generalizing σ ts with
  | nil => exact Option.some.inj (Except.ok.inj h) ▸ hσ
  | cons s ss ih =>
      cases ts with
      | nil => exact Option.some.inj (Except.ok.inj h) ▸ hσ
      | cons t ts =>
          obtain ⟨ρ, hs, hrest⟩ := unifyArgs_cons_cases h
          refine ih (fun σ τ s' t' hs' ht' => ?_) hrest ?_
          · exact step σ τ s' t' (List.mem_cons_of_mem s hs') (List.mem_cons_of_mem t ht')
          · exact step σ ρ s t List.mem_cons_self List.mem_cons_self hs hσ

theorem Terminates.unify_ne_error {σ : Substitution} (h : σ.Terminates) (s t : Term)
    (e : CyclicChain) : σ.unify s t ≠ .error e := by
  obtain ⟨a, ha⟩ := h s
  obtain ⟨b, hb⟩ := h t
  simp only [unify, ha, hb, bind, Except.bind, pure, Except.pure]
  split
  · simp
  · split <;> simp

theorem Terminates.unify {σ τ : Substitution} (h : σ.Terminates) {s t : Term}
    (hu : σ.unify s t = .ok (some τ)) : τ.Terminates := by
  obtain ⟨a, b, -, -, ⟨-, rfl⟩ | ⟨x, e, -, hne, hx, he, rfl⟩⟩ := unify_cases hu
  · exact h
  · exact h.insert hx he hne

theorem Terminates.unifyArgs_ne_error {σ : Substitution} (h : σ.Terminates) (ss ts : List Term)
    (e : CyclicChain) : σ.unifyArgs ss ts ≠ .error e := by
  induction ss generalizing σ ts with
  | nil => simp [unifyArgs, pure, Except.pure]
  | cons s ss ih =>
      cases ts with
      | nil => simp [unifyArgs, pure, Except.pure]
      | cons t ts =>
          cases hu : σ.unify s t with
          | error e' => exact absurd hu (h.unify_ne_error s t e')
          | ok r =>
              cases r with
              | none => simp [unifyArgs, hu, bind, Except.bind, pure, Except.pure]
              | some τ =>
                  simpa [unifyArgs, hu, bind, Except.bind] using ih (h.unify hu) ts

theorem Terminates.unifyArgs {σ τ : Substitution} (h : σ.Terminates) {ss ts : List Term}
    (hu : σ.unifyArgs ss ts = .ok (some τ)) : τ.Terminates :=
  unifyArgs_preserves (fun _ _ _ _ _ _ hs hσ => hσ.unify hs) hu h

theorem Terminates.unifyLiterals_ne_error {σ : Substitution} (h : σ.Terminates) (l m : Literal)
    (e : CyclicChain) : σ.unifyLiterals l m ≠ .error e := by
  unfold unifyLiterals
  split
  · exact h.unifyArgs_ne_error _ _ e
  · simp

theorem Terminates.unifyLiterals {σ τ : Substitution} (h : σ.Terminates) {l m : Literal}
    (hu : σ.unifyLiterals l m = .ok (some τ)) : τ.Terminates := by
  unfold Substitution.unifyLiterals at hu
  split at hu
  · exact h.unifyArgs hu
  · simp at hu

def values (σ : Substitution) : List Term := σ.bindings.map Prod.snd

theorem mem_values_of_get? {σ : Substitution} {x : String} {t : Term} (h : σ.get? x = some t) :
    t ∈ σ.values := by
  obtain ⟨l, _, e, _⟩ := List.lookup_eq_some_iff.1 h
  simp [values, e]

theorem eq_or_mem_values_of_followFor {σ : Substitution} {hops : Nat} {s t : Term}
    (h : σ.followFor hops s = .ok t) : t = s ∨ t ∈ σ.values := by
  refine followFor_induction (P := fun _ s => t = s ∨ t ∈ σ.values) (fun _ _ => .inl rfl) ?_ h
  intro _ s u hs ih
  rcases ih with rfl | ht
  · cases s with
    | var x => exact .inr (mem_values_of_get? hs)
    | const a => simp [next?] at hs
  · exact .inr ht

theorem mem_values_of_unify {σ τ : Substitution} {s t v : Term} (h : σ.unify s t = .ok (some τ))
    (hv : v ∈ τ.values) : v ∈ σ.values ∨ v = s ∨ v = t := by
  obtain ⟨a, b, ha, hb, ⟨-, rfl⟩ | ⟨x, e, hab, -, hx, -, rfl⟩⟩ := unify_cases h
  · exact .inl hv
  · rw [values, bindings_insert_of_unbound e hx, List.map_append, List.mem_append, List.map_cons,
      List.map_nil, List.mem_singleton] at hv
    rcases hv with hv | rfl
    · exact .inl hv
    · rcases hab with ⟨-, rfl⟩ | ⟨rfl, -⟩
      · exact (eq_or_mem_values_of_followFor hb).symm.imp_right .inr
      · exact (eq_or_mem_values_of_followFor ha).symm.imp_right .inl

/-- Unification from the start binds variables only to terms of the two literals. -/
theorem mem_values_of_unifyLiterals {τ : Substitution} {l m : Literal} {v : Term}
    (h : unifyLiterals ∅ l m = .ok (some τ)) (hv : v ∈ τ.values) : v ∈ l.args ∨ v ∈ m.args := by
  unfold unifyLiterals at h
  split at h
  · refine unifyArgs_preserves (P := fun σ => ∀ v ∈ σ.values, v ∈ l.args ∨ v ∈ m.args)
      (fun σ τ s t hs ht hu hσ v hv => ?_) h (by simp [values]) v hv
    rcases mem_values_of_unify hu hv with hv | rfl | rfl
    · exact hσ v hv
    · exact .inl hs
    · exact .inr ht
  · simp at h

end Substitution

/-- A substitution all of whose chains end. -/
structure Unifier extends Substitution where
  terminates : toSubstitution.Terminates

namespace Unifier

/-- The end of a term's chain. -/
def apply (u : Unifier) (t : Term) : Term :=
  match h : u.follow t with
  | .ok a => a
  | .error _ => False.elim (by
      obtain ⟨a, ha⟩ := u.terminates t
      rw [ha] at h
      cases h)

theorem follow_eq (u : Unifier) (t : Term) : u.follow t = .ok (u.apply t) := by
  unfold apply
  split
  · assumption
  · next h =>
      obtain ⟨a, ha⟩ := u.terminates t
      rw [ha] at h
      cases h

def applyLiteral (u : Unifier) (l : Literal) : Literal := { l with args := l.args.map u.apply }

def applyClause (u : Unifier) (c : Clause) : Clause := ⟨c.literals.map u.applyLiteral⟩

/-- Unifies two literals from the empty substitution. -/
def ofLiterals (l m : Literal) : Option Unifier :=
  match h : Substitution.unifyLiterals ∅ l m with
  | .ok none => none
  | .ok (some σ) => some ⟨σ, Substitution.terminates_empty.unifyLiterals h⟩
  | .error e => False.elim (Substitution.terminates_empty.unifyLiterals_ne_error l m e h)

theorem ofLiterals_eq_some_iff {l m : Literal} {u : Unifier} :
    ofLiterals l m = some u ↔
      Substitution.unifyLiterals ∅ l m = .ok (some u.toSubstitution) := by
  unfold ofLiterals
  split
  · next h => simp [h]
  · next σ h =>
      constructor
      · intro e
        rw [← Option.some.inj e]
        exact h
      · intro e
        rw [e] at h
        cases u
        simp_all
  · next e h => exact (Substitution.terminates_empty.unifyLiterals_ne_error l m e h).elim

/-- A term is left as it is or goes to a term of the two literals. -/
theorem apply_eq_or_mem {l m : Literal} {u : Unifier}
    (h : ofLiterals l m = some u) (t : Term) :
    u.apply t = t ∨ u.apply t ∈ l.args ∨ u.apply t ∈ m.args := by
  rcases Substitution.eq_or_mem_values_of_followFor (u.follow_eq t) with e | hv
  · exact .inl e
  · exact .inr (Substitution.mem_values_of_unifyLiterals (ofLiterals_eq_some_iff.1 h) hv)

end Unifier

end Resolution
