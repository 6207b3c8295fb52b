import Resolution.Clause

/-!
# Substitutions

A substitution binds variables to terms, at most one term to a variable, and remembers the order in
which the variables were first bound. A bound variable may be bound to a variable that is bound
again: the value of a term is the end of its chain of bindings. Chains are followed with a limit on
the number of hops, so that a cycle is reported and never followed for ever.
-/

namespace Resolution

structure Substitution where
  bindings : List (String × Term) := []
  nodup_keys : (bindings.map Prod.fst).Nodup := by exact List.nodup_nil
  deriving DecidableEq, Repr

/-- A chain that did not end within its limit, and the variable at which the limit was reached. -/
structure CyclicChain where
  name : String
  deriving DecidableEq, Repr

def CyclicChain.message (e : CyclicChain) : String := "cyclic substitution at " ++ e.name

namespace Substitution

instance : EmptyCollection Substitution := ⟨{}⟩

@[simp]
theorem bindings_empty : (∅ : Substitution).bindings = [] := rfl

@[ext]
theorem ext {σ τ : Substitution} (h : σ.bindings = τ.bindings) : σ = τ := by
  cases σ
  cases τ
  simpa using h

def size (σ : Substitution) : Nat := σ.bindings.length

def keys (σ : Substitution) : List String := σ.bindings.map Prod.fst

def get? (σ : Substitution) (x : String) : Option Term := σ.bindings.lookup x

/-- A variable bound before keeps its place and loses its old value; a new one comes last. -/
def insertBinding (x : String) (t : Term) : List (String × Term) → List (String × Term)
  | [] => [(x, t)]
  | (y, u) :: rest => if y = x then (y, t) :: rest else (y, u) :: insertBinding x t rest

theorem keys_insertBinding (x : String) (t : Term) (l : List (String × Term)) :
    (insertBinding x t l).map Prod.fst =
      if x ∈ l.map Prod.fst then l.map Prod.fst else l.map Prod.fst ++ [x] := by
  induction l with
  | nil => rfl
  | cons b l ih =>
      obtain ⟨y, u⟩ := b
      by_cases h : y = x
      · subst h
        simp [insertBinding]
      · have h' : ¬x = y := fun e => h e.symm
        by_cases hx : x ∈ l.map Prod.fst
        · simp only [hx, if_true] at ih
          simp only [insertBinding, h, if_false, List.map_cons, ih, List.mem_cons, h', false_or, hx,
            if_true]
        · simp only [hx, if_false] at ih
          simp only [insertBinding, h, if_false, List.map_cons, ih, List.mem_cons, h', false_or, hx,
            List.cons_append]

theorem nodup_keys_insertBinding (x : String) (t : Term) {l : List (String × Term)}
    (h : (l.map Prod.fst).Nodup) : ((insertBinding x t l).map Prod.fst).Nodup := by
  rw [keys_insertBinding]
  split
  · exact h
  · next hx =>
      refine List.nodup_append.2 ⟨h, by simp, ?_⟩
      intro a ha b hb
      simp only [List.mem_singleton] at hb
      subst hb
      exact fun e => hx (e ▸ ha)

theorem lookup_insertBinding (x y : String) (t : Term) (l : List (String × Term)) :
    (insertBinding x t l).lookup y = if y = x then some t else l.lookup y := by
  induction l with
  | nil =>
      by_cases h : y = x
      · simp [insertBinding, h]
      · simp [insertBinding, h, List.lookup_cons, beq_eq_false_iff_ne.2 h]
  | cons b l ih =>
      obtain ⟨z, u⟩ := b
      by_cases h : z = x
      · subst h
        by_cases hy : y = z
        · simp [insertBinding, hy]
        · simp [insertBinding, hy, List.lookup_cons, beq_eq_false_iff_ne.2 hy]
      · by_cases hy : y = z
        · subst hy
          simp [insertBinding, h]
        · simp [insertBinding, h, List.lookup_cons, beq_eq_false_iff_ne.2 hy, ih]

theorem insertBinding_of_lookup_none {x : String} (t : Term) {l : List (String × Term)}
    (h : l.lookup x = none) : insertBinding x t l = l ++ [(x, t)] := by
  induction l with
  | nil => rfl
  | cons b l ih =>
      obtain ⟨y, u⟩ := b
      by_cases hy : x = y
      · simp [hy] at h
      · rw [List.lookup_cons, beq_eq_false_iff_ne.2 hy] at h
        have hy' : ¬y = x := fun e => hy e.symm
        simp [insertBinding, hy', ih h]

def insert (σ : Substitution) (x : String) (t : Term) : Substitution where
  bindings := insertBinding x t σ.bindings
  nodup_keys := nodup_keys_insertBinding x t σ.nodup_keys

/-- Binds from left to right; a variable given again takes its last value. -/
def ofList (l : List (String × Term)) : Substitution :=
  l.foldl (fun σ b => σ.insert b.1 b.2) ∅

@[simp]
theorem get?_empty (x : String) : (∅ : Substitution).get? x = none := rfl

theorem get?_insert (σ : Substitution) (x y : String) (t : Term) :
    (σ.insert x t).get? y = if y = x then some t else σ.get? y :=
  lookup_insertBinding x y t σ.bindings

theorem bindings_insert_of_unbound {σ : Substitution} {x : String} (t : Term)
    (h : σ.get? x = none) : (σ.insert x t).bindings = σ.bindings ++ [(x, t)] :=
  insertBinding_of_lookup_none t h

theorem size_insert_of_unbound {σ : Substitution} {x : String} (t : Term)
    (h : σ.get? x = none) : (σ.insert x t).size = σ.size + 1 := by
  simp [size, bindings_insert_of_unbound t h]

/-- One hop along a chain; `none` at its end, a constant or an unbound variable. -/
def next? (σ : Substitution) : Term → Option Term
  | .var x => σ.get? x
  | .const _ => none

/-- Follows a chain for at most the given number of hops. -/
def followFor (σ : Substitution) : Nat → Term → Except CyclicChain Term
  | 0, t =>
    match σ.next? t with
    | none => .ok t
    | some _ => .error ⟨t.name⟩
  | hops + 1, t =>
    match σ.next? t with
    | none => .ok t
    | some u => σ.followFor hops u

/-- The end of a chain. A chain without a cycle visits each bound variable at most once, so one hop
more than there are bindings is enough. -/
def follow (σ : Substitution) (t : Term) : Except CyclicChain Term := σ.followFor (σ.size + 1) t

/-- Follows a chain under a limit set by the caller; a negative limit allows no hop. -/
def followWithin (σ : Substitution) (limit : Option Int) (t : Term) : Except CyclicChain Term :=
  match limit with
  | none => σ.follow t
  | some hops => σ.followFor hops.toNat t

def applyLiteral (σ : Substitution) (l : Literal) : Except CyclicChain Literal := do
  return { l with args := ← l.args.mapM σ.follow }

def applyClause (σ : Substitution) (c : Clause) : Except CyclicChain Clause := do
  return ⟨← c.literals.mapM σ.applyLiteral⟩

def bindingText (σ : Substitution) (x : String) : Except CyclicChain String := do
  return x ++ "/" ++ (← σ.follow (.var x)).name

/-- The variables in binding order, each with the end of its chain. -/
def text (σ : Substitution) : Except CyclicChain String := do
  return "\x7b" ++ ", ".intercalate (← σ.keys.mapM σ.bindingText) ++ "\x7d"

end Substitution

end Resolution
