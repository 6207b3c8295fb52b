import Mathlib.Logic.Equiv.Basic
import Resolution.Proofs.Enumeration
import Resolution.Proofs.Renaming

/-!
# Resolving in either order

The search tries two clauses in one order only. In the other order the same literals resolve, but
the unifier may choose other variables to stand for the rest. Two most general unifiers of the same
terms absorb each other, so they put the same terms together, and they differ only in which variable
of a class they keep. Exchanging the two variables in every class is a permutation of the variables
that turns what one unifier makes of a term into what the other makes of it. It turns one resolvent
into the other, up to the order of the literals.
-/

namespace Resolution

namespace Unifier

variable {u v : Unifier} {l m l' m' : Literal} {t : Term} {x : String}

/-- A unifier leaves alone every variable that the two literals do not hold: changed to keep the
variable it still unifies them, so it factors through itself. -/
theorem apply_of_not_mem (h : ofLiterals l m = some u) (hl : .var x ∉ l.args)
    (hm : .var x ∉ m.args) : u.apply (.var x) = .var x := by
  let θ : String → Term := fun y => if y = x then .var x else u.apply (.var y)
  have hunder : ∀ t, t ≠ .var x → t.under θ = u.apply t := by
    intro t ht
    cases t with
    | var y => exact if_neg fun hy => ht (congrArg Term.var hy)
    | const a => exact (u.apply_const a).symm
  have hθ : Unifies θ l.args m.args := by
    have hmap : ∀ ts : List Term, .var x ∉ ts → ts.map (Term.under θ) = ts.map u.apply :=
      fun ts hts => List.map_congr_left fun t ht => hunder t fun e => hts (e ▸ ht)
    rw [Unifies, hmap _ hl, hmap _ hm]
    exact (map_apply_eq h).2
  have hx : (u.apply (.var x)).under θ = .var x :=
    (under_apply h hθ (.var x)).trans (if_pos rfl)
  by_contra hne
  rw [hunder _ hne, apply_apply] at hx
  exact hne hx

/-- Each unifier makes the same of a term and of what the other makes of it. -/
structure Equivalent (u v : Unifier) : Prop where
  left : ∀ t, u.apply (v.apply t) = u.apply t
  right : ∀ t, v.apply (u.apply t) = v.apply t

/-- Unifiers of literals that the same maps unify are equivalent. -/
theorem equivalent_of_unifies_iff (hu : ofLiterals l m = some u) (hv : ofLiterals l' m' = some v)
    (h : ∀ θ, Unifies θ l.args m.args ↔ Unifies θ l'.args m'.args) : u.Equivalent v := by
  constructor
  · intro t
    have habsorb := under_apply hv ((h _).1 (unifies_toMap hu)) t
    rwa [under_toMap, under_toMap] at habsorb
  · intro t
    have habsorb := under_apply hu ((h _).2 (unifies_toMap hv)) t
    rwa [under_toMap, under_toMap] at habsorb

/-- Exchanges what the one unifier keeps of a class of terms with what the other keeps of it. -/
def exchange (u v : Unifier) (t : Term) : Term :=
  if u.apply t = t then v.apply t else if v.apply t = t then u.apply t else t

@[simp] theorem exchange_const (u v : Unifier) (a : String) :
    exchange u v (.const a) = .const a := by
  simp [exchange]

theorem exchange_of_fixed (hu : u.apply t = t) (hv : v.apply t = t) : exchange u v t = t := by
  simp [exchange, hu, hv]

namespace Equivalent

variable (h : u.Equivalent v)
include h

/-- What the one unifier makes of a term becomes what the other makes of it. -/
theorem exchange_apply (t : Term) : exchange u v (u.apply t) = v.apply t := by
  rw [exchange, if_pos (u.apply_apply t), h.right]

/-- A class has at most two terms to exchange; all its other terms stay. -/
theorem exchange_exchange (t : Term) : exchange u v (exchange u v t) = t := by
  by_cases hu : u.apply t = t
  · have hfirst : exchange u v t = v.apply t := if_pos hu
    by_cases hv : v.apply t = t
    · rw [hfirst, hv, hfirst, hv]
    · have hmoved : u.apply (v.apply t) = t := (h.left t).trans hu
      rw [hfirst, exchange, hmoved, if_neg (fun e => hv e.symm), if_pos (v.apply_apply t)]
  · by_cases hv : v.apply t = t
    · have hfirst : exchange u v t = u.apply t := by rw [exchange, if_neg hu, if_pos hv]
      rw [hfirst, h.exchange_apply, hv]
    · have hfirst : exchange u v t = t := by rw [exchange, if_neg hu, if_neg hv]
      rw [hfirst, hfirst]

/-- Variables go to variables, since constants stay where they are. -/
theorem exists_exchange_var (x : String) : ∃ y, exchange u v (.var x) = .var y := by
  cases hx : exchange u v (.var x) with
  | var y => exact ⟨y, rfl⟩
  | const a =>
      have hback := h.exchange_exchange (.var x)
      rw [hx, exchange_const] at hback
      cases hback

theorem var_name_exchange (x : String) :
    .var (exchange u v (.var x)).name = exchange u v (.var x) := by
  obtain ⟨y, hy⟩ := h.exists_exchange_var x
  rw [hy, Term.name]

theorem involutive_name_exchange :
    Function.Involutive fun x => (exchange u v (.var x)).name := by
  intro x
  dsimp only
  rw [h.var_name_exchange, h.exchange_exchange, Term.name]

end Equivalent

/-- The exchange as a permutation of the variables. -/
def Equivalent.perm (h : u.Equivalent v) : Equiv.Perm String :=
  h.involutive_name_exchange.toPerm

theorem Equivalent.perm_apply_of_fixed (h : u.Equivalent v) (hu : u.apply (.var x) = .var x)
    (hv : v.apply (.var x) = .var x) : h.perm x = x :=
  congrArg Term.name (exchange_of_fixed hu hv)

end Unifier

/-- Renames the variables only. -/
def Renaming.ofPerm (π : Equiv.Perm String) : Renaming where
  predicate := id
  constant := id
  var := π
  predicate_injective := Function.injective_id
  constant_injective := Function.injective_id
  var_injective := π.injective

namespace Unifier.Equivalent

variable {u v : Unifier} (h : u.Equivalent v)
include h

theorem term_ofPerm (t : Term) : (Renaming.ofPerm h.perm).term t = exchange u v t := by
  cases t with
  | var x => exact h.var_name_exchange x
  | const a => exact (exchange_const u v a).symm

theorem literal_ofPerm (k : Literal) :
    (Renaming.ofPerm h.perm).literal (u.applyLiteral k) = v.applyLiteral k := by
  have hargs : (k.args.map u.apply).map (Renaming.ofPerm h.perm).term = k.args.map v.apply := by
    rw [List.map_map]
    refine List.map_congr_left fun t _ => ?_
    rw [Function.comp_apply, h.term_ofPerm, h.exchange_apply]
  rw [Renaming.literal, applyLiteral, hargs]
  rfl

/-- What is left of a clause under the one unifier is renamed to what is left under the other. -/
theorem remaining_ofPerm (c : Clause) (l : Literal) :
    (c.remaining u l).map (Renaming.ofPerm h.perm).literal = c.remaining v l := by
  have hliterals : (u.applyClause c).literals.map (Renaming.ofPerm h.perm).literal =
      (v.applyClause c).literals := by
    rw [applyClause, List.map_map]
    exact List.map_congr_left fun k _ => h.literal_ofPerm k
  rw [Clause.remaining, Clause.remaining, ← hliterals, List.filter_map]
  congr 1
  refine List.filter_congr fun k _ => ?_
  simp [← h.literal_ofPerm, (Renaming.literal_injective _).eq_iff]

end Unifier.Equivalent

namespace Clause

theorem nodup_places (c d : Clause) : (c.places d).Nodup := by
  refine (c.pairwise_places d).imp fun {p q} hlex heq => ?_
  subst heq
  cases hlex with
  | left _ _ hlt => exact Nat.lt_irrefl _ hlt
  | right _ hlt => exact Nat.lt_irrefl _ hlt

/-- The places in the other order are the same, each pair the other way round. -/
theorem perm_map_swap_places (c d : Clause) :
    ((c.places d).map Prod.swap).Perm (d.places c) := by
  refine (List.perm_ext_iff_of_nodup ((c.nodup_places d).map Prod.swap_injective)
    (d.nodup_places c)).2 fun place => ?_
  rw [List.mem_map_of_involutive Prod.swap_swap, mem_places, mem_places]
  constructor
  · rintro ⟨l, m, hl, hm, h⟩
    exact ⟨m, l, hm, hl, h.symm⟩
  · rintro ⟨m, l, hm, hl, h⟩
    exact ⟨l, m, hl, hm, h.symm⟩

theorem length_resolve_comm (c d : Clause) : (c.resolve d).length = (d.resolve c).length := by
  rw [← c.length_places d, ← d.length_places c, ← (c.perm_map_swap_places d).length_eq,
    List.length_map]

end Clause

namespace Resolvent

variable {c d : Clause} {r r' : Resolvent}

/-- The unifier in the other order unifies the same literals, taken the other way round. -/
theorem ofLiterals_exchanged (hr' : r' ∈ d.resolve c) (hleft : r'.left = r.right)
    (hright : r'.right = r.left) :
    Unifier.ofLiterals r.right r.left.negate = some r'.unifier := by
  obtain ⟨-, -, -, hu', -⟩ := Clause.resolve_cases hr'
  rwa [hleft, hright] at hu'

theorem same_exchanged (hr : r ∈ c.resolve d) (hr' : r' ∈ d.resolve c)
    (hleft : r'.left = r.right) (hright : r'.right = r.left)
    (h : r.unifier.Equivalent r'.unifier) :
    ((Renaming.ofPerm h.perm).clause r.clause).same r'.clause = true := by
  obtain ⟨-, -, -, -, hclause⟩ := Clause.resolve_cases hr
  obtain ⟨-, -, -, -, hclause'⟩ := Clause.resolve_cases hr'
  rw [Clause.same_iff]
  have hnodup := (Clause.nodup_of_mem_resolve hr).map (Renaming.ofPerm h.perm).literal_injective
  refine (List.perm_ext_iff_of_nodup hnodup (Clause.nodup_of_mem_resolve hr')).2 fun k => ?_
  rw [hclause', hclause, List.mem_eraseDups, hleft, hright, ← h.remaining_ofPerm,
    ← h.remaining_ofPerm, ← List.map_append]
  simp only [List.mem_map, List.mem_eraseDups, List.mem_append, or_comm]

end Resolvent

/-- In either order there are equally many resolvents. For each in the one order there is one on the
same literals in the other, the same clause after a permutation of the variables, which moves none
but variables of the two literals. -/
theorem resolve_exchange (c d : Clause) :
    (c.resolve d).length = (d.resolve c).length ∧
      ∀ r ∈ c.resolve d, ∃ r' ∈ d.resolve c, r'.left = r.right ∧ r'.right = r.left ∧
        ∃ π : Equiv.Perm String,
          ((Renaming.ofPerm π).clause r.clause).same r'.clause = true ∧
          ∀ x, π x ≠ x → .var x ∈ r.left.args ∨ .var x ∈ r.right.args := by
  refine ⟨c.length_resolve_comm d, fun r hr => ?_⟩
  obtain ⟨hl, hm, -, hu, -⟩ := Clause.resolve_cases hr
  obtain ⟨r', hr', hleft, hright⟩ :=
    Clause.exists_mem_resolve hm hl (Resolvent.resolvable hr).symm
  have hu' := Resolvent.ofLiterals_exchanged hr' hleft hright
  have h : r.unifier.Equivalent r'.unifier :=
    Unifier.equivalent_of_unifies_iff hu hu' fun θ => ⟨Eq.symm, Eq.symm⟩
  refine ⟨r', hr', hleft, hright, h.perm, Resolvent.same_exchanged hr hr' hleft hright h, ?_⟩
  intro x hmoved
  by_contra hout
  obtain ⟨houtLeft, houtRight⟩ := not_or.1 hout
  exact hmoved (h.perm_apply_of_fixed (Unifier.apply_of_not_mem hu houtLeft houtRight)
    (Unifier.apply_of_not_mem hu' houtRight houtLeft))

/-- The one order keeps `y` and the other `x`, so a permutation is needed. It leaves `z` alone. -/
theorem resolve_exchange_swap :
    let c : Clause := ⟨[⟨"P", [.var "x"], false⟩, ⟨"Q", [.var "x", .var "z"], false⟩]⟩
    let d : Clause := ⟨[⟨"R", [.var "y"], false⟩, ⟨"P", [.var "y"], true⟩]⟩
    ∃ r ∈ c.resolve d, ∃ r' ∈ d.resolve c,
      r.clause.literals = [⟨"Q", [.var "y", .var "z"], false⟩, ⟨"R", [.var "y"], false⟩] ∧
      r'.clause.literals = [⟨"R", [.var "x"], false⟩, ⟨"Q", [.var "x", .var "z"], false⟩] ∧
      ∃ π : Equiv.Perm String,
        ((Renaming.ofPerm π).clause r.clause).same r'.clause = true ∧ π "z" = "z" := by
  intro c d
  have hclause : ∀ r ∈ c.resolve d, r.clause.literals =
      [⟨"Q", [.var "y", .var "z"], false⟩, ⟨"R", [.var "y"], false⟩] := by
    decide +kernel
  have hliterals : ∀ r ∈ c.resolve d,
      r.left = ⟨"P", [.var "x"], false⟩ ∧ r.right = ⟨"P", [.var "y"], true⟩ := by
    decide +kernel
  have hclause' : ∀ r' ∈ d.resolve c, r'.clause.literals =
      [⟨"R", [.var "x"], false⟩, ⟨"Q", [.var "x", .var "z"], false⟩] := by
    decide +kernel
  obtain ⟨r, hr⟩ : ∃ r, r ∈ c.resolve d := ⟨_, List.mem_cons_self⟩
  obtain ⟨r', hr', -, -, π, hsame, hmoved⟩ := (resolve_exchange c d).2 r hr
  refine ⟨r, hr, r', hr', hclause r hr, hclause' r' hr', π, hsame, ?_⟩
  by_contra hz
  have hargs := hmoved "z" hz
  rw [(hliterals r hr).1, (hliterals r hr).2] at hargs
  exact absurd hargs (by decide)

end Resolution
