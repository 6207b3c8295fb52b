import Resolution.Proofs.Enumeration

/-!
# Lifting

A map from variables to terms turns two clauses into instances of them. Where the instances resolve
on the instances of two literals, the clauses resolve on the literals themselves: the map unifies
the arguments, so it factors through the unifier that is found. The instance of the resolvent then
holds all that the resolvent of the instances holds. It may hold more, since the map can make
literals equal that the unifier keeps apart. Nothing but literals of the two instances is in it.
-/

namespace Resolution

def Literal.under (θ : String → Term) (l : Literal) : Literal :=
  { l with args := l.args.map (Term.under θ) }

def Clause.under (θ : String → Term) (c : Clause) : Clause := ⟨c.literals.map (Literal.under θ)⟩

variable {c d : Clause} {l m k : Literal} {u : Unifier} {θ : String → Term}

theorem Clause.mem_under : k ∈ (c.under θ).literals ↔ ∃ k₀ ∈ c.literals, k₀.under θ = k :=
  List.mem_map

/-- Two literals whose instances are complementary resolve, and the map is a unifier of theirs. -/
theorem Literal.resolvable_of_under (h : l.under θ = (m.under θ).negate) :
    l.Resolvable m ∧ Unifies θ l.args m.args := by
  simp only [Literal.under, Literal.negate, Literal.mk.injEq] at h
  obtain ⟨hname, hargs, hsign⟩ := h
  have harity : l.arity = m.arity := by
    simpa [Literal.arity] using congrArg List.length hargs
  refine ⟨⟨hname, ?_, harity, θ, hargs⟩, hargs⟩
  rw [hsign]
  exact Bool.not_ne_self _

/-- A map that unifies the arguments sees no difference between a literal and what the unifier makes
of it. -/
theorem Unifier.under_applyLiteral (h : ofLiterals l m = some u) (hθ : Unifies θ l.args m.args)
    (k : Literal) : (u.applyLiteral k).under θ = k.under θ := by
  have hargs : (k.args.map u.apply).map (Term.under θ) = k.args.map (Term.under θ) := by
    rw [List.map_map]
    exact List.map_congr_left fun t _ => under_apply h hθ t
  rw [Literal.under, applyLiteral, hargs]
  rfl

section Remaining

variable (habsorb : ∀ k, (u.applyLiteral k).under θ = k.under θ)
include habsorb

/-- What differs from the instance of the literal resolved on is an instance of what is left. -/
theorem Clause.exists_mem_remaining (hk : k ∈ (c.under θ).literals) (hne : k ≠ l.under θ) :
    ∃ k₀ ∈ c.remaining u l, k₀.under θ = k := by
  obtain ⟨k₀, hk₀, rfl⟩ := Clause.mem_under.1 hk
  refine ⟨u.applyLiteral k₀, Clause.mem_remaining.2 ⟨List.mem_map_of_mem hk₀, ?_⟩, habsorb k₀⟩
  intro heq
  rw [← habsorb k₀, ← habsorb l, heq] at hne
  exact hne rfl

theorem Clause.under_mem_of_mem_remaining (hk : k ∈ c.remaining u l) :
    k.under θ ∈ (c.under θ).literals := by
  obtain ⟨hmem, -⟩ := Clause.mem_remaining.1 hk
  obtain ⟨k₀, hk₀, rfl⟩ := List.mem_map.1 hmem
  rw [habsorb k₀]
  exact List.mem_map_of_mem hk₀

end Remaining

/-- Wherever instances of two literals are complementary, the clauses have a resolvent on the
literals. Its instance lies between the resolvent of the instances and all literals of theirs. -/
theorem resolution_lifts (hl : l ∈ c.literals) (hm : m ∈ d.literals)
    (h : l.under θ = (m.under θ).negate) :
    ∃ r ∈ c.resolve d, r.left = l ∧ r.right = m ∧
      (∀ k, (k ∈ (c.under θ).literals ∧ k ≠ l.under θ) ∨
          (k ∈ (d.under θ).literals ∧ k ≠ m.under θ) → k ∈ (r.clause.under θ).literals) ∧
      ∀ k ∈ (r.clause.under θ).literals,
        k ∈ (c.under θ).literals ∨ k ∈ (d.under θ).literals := by
  obtain ⟨hresolvable, hθ⟩ := Literal.resolvable_of_under h
  obtain ⟨r, hr, rfl, rfl⟩ := Clause.exists_mem_resolve hl hm hresolvable
  obtain ⟨-, -, -, hu, hclause⟩ := Clause.resolve_cases hr
  have habsorb : ∀ k, (r.unifier.applyLiteral k).under θ = k.under θ :=
    Unifier.under_applyLiteral hu hθ
  refine ⟨r, hr, rfl, rfl, fun k hk => ?_, fun k hk => ?_⟩
  · rw [Clause.mem_under]
    simp only [hclause, List.mem_eraseDups, List.mem_append]
    rcases hk with ⟨hk, hne⟩ | ⟨hk, hne⟩
    · obtain ⟨k₀, hk₀, heq⟩ := Clause.exists_mem_remaining habsorb hk hne
      exact ⟨k₀, .inl hk₀, heq⟩
    · obtain ⟨k₀, hk₀, heq⟩ := Clause.exists_mem_remaining habsorb hk hne
      exact ⟨k₀, .inr hk₀, heq⟩
  · obtain ⟨k₀, hk₀, rfl⟩ := Clause.mem_under.1 hk
    rw [hclause, List.mem_eraseDups, List.mem_append] at hk₀
    rcases hk₀ with hk₀ | hk₀
    · exact .inl (Clause.under_mem_of_mem_remaining habsorb hk₀)
    · exact .inr (Clause.under_mem_of_mem_remaining habsorb hk₀)

/-- The map makes `P(x)` and `P(y)` equal, the unifier leaves `P(y)` alone. So `P(a)` is an instance
of a literal of the resolvent, and not a literal of the resolvent of the instances. -/
theorem resolution_lifts_with_surplus :
    let c : Clause := ⟨[⟨"P", [.var "x"], false⟩, ⟨"P", [.var "y"], false⟩,
      ⟨"Q", [.var "x", .var "z"], false⟩]⟩
    let d : Clause := ⟨[⟨"P", [.const "a"], true⟩]⟩
    let θ : String → Term := fun _ => .const "a"
    let l : Literal := ⟨"P", [.var "x"], false⟩
    let m : Literal := ⟨"P", [.const "a"], true⟩
    l.under θ = (m.under θ).negate ∧
      ∃ r ∈ c.resolve d, r.left = l ∧ r.right = m ∧
        r.clause.literals = [⟨"P", [.var "y"], false⟩, ⟨"Q", [.const "a", .var "z"], false⟩] ∧
        ⟨"Q", [.const "a", .const "a"], false⟩ ∈ (r.clause.under θ).literals ∧
        l.under θ ∈ (r.clause.under θ).literals := by
  intro c d θ l m
  have h : l.under θ = (m.under θ).negate := by decide
  have hclause : ∀ r ∈ c.resolve d, r.left = l →
      r.clause.literals =
        [⟨"P", [.var "y"], false⟩, ⟨"Q", [.const "a", .var "z"], false⟩] := by
    decide +kernel
  obtain ⟨r, hr, hleft, hright, hinstances, -⟩ :=
    resolution_lifts (c := c) (d := d) (θ := θ) (l := l) (m := m) (by decide) (by decide) h
  refine ⟨h, r, hr, hleft, hright, hclause r hr hleft, ?_, ?_⟩
  · exact hinstances _ (.inl (by decide))
  · rw [Clause.under, hclause r hr hleft]
    decide

end Resolution
