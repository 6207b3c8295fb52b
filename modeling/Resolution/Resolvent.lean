import Resolution.Unification

/-!
# Resolvents

Two clauses are resolved on a literal of each: the names agree, the signs differ and the arguments
unify. The resolvent holds the other literals of both clauses under the unifier, each once.
Variables are shared between clauses: the `x` of one clause is the `x` of the other.

What a search keeps of a resolvent is its entry: the clause, the two literals and the bindings.
-/

namespace Resolution

/-- A resolvent with the two literals resolved on, as they stand in their clauses, and the
unifier. -/
structure Resolvent where
  clause : Clause
  left : Literal
  right : Literal
  unifier : Unifier

/-- The clause, the literals resolved on and the bindings. -/
abbrev Entry := Clause × Literal × Literal × Substitution

def Resolvent.entry (r : Resolvent) : Entry :=
  (r.clause, r.left, r.right, r.unifier.toSubstitution)

theorem nodup_eraseDups {α : Type} [BEq α] [LawfulBEq α] (l : List α) : l.eraseDups.Nodup := by
  generalize hn : l.length = n
  induction n using Nat.strongRecOn generalizing l with
  | _ n ih =>
      cases l with
      | nil => simp
      | cons a l =>
          rw [List.eraseDups_cons, List.nodup_cons]
          refine ⟨?_, ih _ ?_ _ rfl⟩
          · simp [List.mem_eraseDups]
          · have := List.length_filter_le (fun b => !b == a) l
            simp only [List.length_cons] at hn
            omega

namespace Clause

/-- The clause under the unifier, without the literal resolved on. -/
def remaining (c : Clause) (u : Unifier) (l : Literal) : List Literal :=
  (u.applyClause c).literals.filter (· ≠ u.applyLiteral l)

/-- Resolves on one literal of each clause. -/
def resolveOn? (c d : Clause) (l m : Literal) : Option Resolvent :=
  if l.name = m.name ∧ l.negated ≠ m.negated then
    (Unifier.ofLiterals l m.negate).map fun u =>
      { clause := ⟨(c.remaining u l ++ d.remaining u m).eraseDups⟩
        left := l
        right := m
        unifier := u }
  else none

/-- All resolvents, by the position of the literal in the first clause, then in the second. -/
def resolve (c d : Clause) : List Resolvent :=
  c.literals.flatMap fun l => d.literals.filterMap fun m => c.resolveOn? d l m

theorem mem_resolve {c d : Clause} {r : Resolvent} :
    r ∈ c.resolve d ↔
      ∃ l ∈ c.literals, ∃ m ∈ d.literals, c.resolveOn? d l m = some r := by
  simp [resolve]

theorem resolveOn?_eq_some_iff {c d : Clause} {l m : Literal} {r : Resolvent} :
    c.resolveOn? d l m = some r ↔
      (l.name = m.name ∧ l.negated ≠ m.negated) ∧
        ∃ u, Unifier.ofLiterals l m.negate = some u ∧
          r = ⟨⟨(c.remaining u l ++ d.remaining u m).eraseDups⟩, l, m, u⟩ := by
  unfold resolveOn?
  split
  · next h =>
      simp only [Option.map_eq_some_iff, h, ne_eq, not_false_eq_true, and_self, true_and]
      exact exists_congr fun u => and_congr_right fun _ => eq_comm
  · next h => simp [h]

/-- Which literals a resolvent resolves on, under which unifier, and what is left of the two
clauses. -/
theorem resolve_cases {c d : Clause} {r : Resolvent} (h : r ∈ c.resolve d) :
    r.left ∈ c.literals ∧ r.right ∈ d.literals ∧ r.left.negated ≠ r.right.negated ∧
      Unifier.ofLiterals r.left r.right.negate = some r.unifier ∧
      r.clause.literals =
        (c.remaining r.unifier r.left ++ d.remaining r.unifier r.right).eraseDups := by
  obtain ⟨l, hl, m, hm, hr⟩ := mem_resolve.1 h
  obtain ⟨⟨-, hsign⟩, u, hu, rfl⟩ := resolveOn?_eq_some_iff.1 hr
  exact ⟨hl, hm, hsign, hu, rfl⟩

theorem nodup_of_mem_resolve {c d : Clause} {r : Resolvent} (h : r ∈ c.resolve d) :
    r.clause.literals.Nodup := by
  obtain ⟨-, -, -, -, hliterals⟩ := resolve_cases h
  rw [hliterals]
  exact nodup_eraseDups _

end Clause

end Resolution
