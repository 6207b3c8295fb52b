import Resolution.Clause

/-!
# The clauses over finitely many atoms

A search invents no predicate symbols and no terms, so all its clauses are over the atoms that the
symbols and terms of the input allow. Up to the order of literals there are `3 ^ n` clauses over `n`
atoms that are no tautologies and repeat no literal: each atom is absent, positive or negative.
Every such clause is listed by `clausesOver`.
-/

namespace Resolution

structure Atom where
  name : String
  args : List Term
  deriving DecidableEq, Repr

namespace Atom

def positive (a : Atom) : Literal := { name := a.name, args := a.args }

def negative (a : Atom) : Literal := { name := a.name, args := a.args, negated := true }

end Atom

def Literal.atom (l : Literal) : Atom := ⟨l.name, l.args⟩

theorem Literal.eq_positive_or_negative (l : Literal) :
    l = l.atom.positive ∨ l = l.atom.negative := by
  obtain ⟨name, args, negated⟩ := l
  cases negated
  · exact .inl rfl
  · exact .inr rfl

@[simp]
theorem Atom.negate_positive (a : Atom) : a.positive.negate = a.negative := rfl

/-- The predicate symbols: names with arities, each once. -/
def symbols (cs : List Clause) : List (String × Nat) :=
  ((cs.flatMap Clause.literals).map fun l => (l.name, l.arity)).eraseDups

/-- The terms, each once. -/
def terms (cs : List Clause) : List Term :=
  ((cs.flatMap Clause.literals).flatMap Literal.args).eraseDups

/-- The lists of the given length over some terms. -/
def argumentLists (ts : List Term) : Nat → List (List Term)
  | 0 => [[]]
  | n + 1 => ts.flatMap fun t => (argumentLists ts n).map (t :: ·)

/-- The atoms built from the symbols and the terms of a clause list. -/
def atoms (cs : List Clause) : List Atom :=
  (symbols cs).flatMap fun (name, arity) => (argumentLists (terms cs) arity).map (⟨name, ·⟩)

theorem mem_argumentLists {ts : List Term} {n : Nat} {args : List Term} :
    args ∈ argumentLists ts n ↔ args.length = n ∧ ∀ t ∈ args, t ∈ ts := by
  induction n generalizing args with
  | zero => cases args <;> simp [argumentLists]
  | succ n ih =>
      cases args with
      | nil => simp [argumentLists]
      | cons t args =>
          simp only [argumentLists, List.mem_flatMap, List.mem_map, List.cons.injEq,
            List.length_cons, Nat.add_right_cancel_iff, List.mem_cons, forall_eq_or_imp]
          constructor
          · rintro ⟨u, hu, rest, hrest, rfl, rfl⟩
            exact ⟨(ih.1 hrest).1, hu, (ih.1 hrest).2⟩
          · rintro ⟨hn, ht, hargs⟩
            exact ⟨t, ht, args, ih.2 ⟨hn, hargs⟩, rfl, rfl⟩

theorem mem_symbols {cs : List Clause} {name : String} {arity : Nat} :
    (name, arity) ∈ symbols cs ↔
      ∃ c ∈ cs, ∃ l ∈ c.literals, l.name = name ∧ l.arity = arity := by
  simp only [symbols, List.mem_eraseDups, List.mem_map, List.mem_flatMap, Prod.mk.injEq]
  constructor
  · rintro ⟨l, ⟨c, hc, hl⟩, h⟩
    exact ⟨c, hc, l, hl, h⟩
  · rintro ⟨c, hc, l, hl, h⟩
    exact ⟨l, ⟨c, hc, hl⟩, h⟩

theorem mem_terms {cs : List Clause} {t : Term} :
    t ∈ terms cs ↔ ∃ c ∈ cs, ∃ l ∈ c.literals, t ∈ l.args := by
  simp only [terms, List.mem_eraseDups, List.mem_flatMap]
  constructor
  · rintro ⟨l, ⟨c, hc, hl⟩, ht⟩
    exact ⟨c, hc, l, hl, ht⟩
  · rintro ⟨c, hc, l, hl, ht⟩
    exact ⟨l, ⟨c, hc, hl⟩, ht⟩

theorem mem_atoms {cs : List Clause} {a : Atom} :
    a ∈ atoms cs ↔ (a.name, a.args.length) ∈ symbols cs ∧ ∀ t ∈ a.args, t ∈ terms cs := by
  obtain ⟨name, args⟩ := a
  simp only [atoms, List.mem_flatMap, List.mem_map, Prod.exists, Atom.mk.injEq]
  constructor
  · rintro ⟨f, n, hf, args', hargs, rfl, rfl⟩
    obtain ⟨hn, ht⟩ := mem_argumentLists.1 hargs
    exact ⟨hn ▸ hf, ht⟩
  · rintro ⟨hf, ht⟩
    exact ⟨name, args.length, hf, args, mem_argumentLists.2 ⟨rfl, ht⟩, rfl, rfl⟩

theorem eraseDups_append_of_subset {α : Type} [BEq α] [LawfulBEq α] {l m : List α}
    (h : ∀ a ∈ m, a ∈ l) :
    (l ++ m).eraseDups = l.eraseDups := by
  have hm : m.removeAll l = [] := by
    simp only [List.removeAll, List.filter_eq_nil_iff]
    intro a ha
    simp [h a ha]
  rw [List.eraseDups_append, hm]
  simp

/-- A literal over the symbols and terms of a clause list. -/
def Literal.Over (cs : List Clause) (l : Literal) : Prop :=
  (l.name, l.arity) ∈ symbols cs ∧ ∀ t ∈ l.args, t ∈ terms cs

theorem Literal.over_iff {cs : List Clause} {l : Literal} : l.Over cs ↔ l.atom ∈ atoms cs :=
  (mem_atoms (a := l.atom)).symm

theorem Literal.over_of_mem {cs : List Clause} {c : Clause} (hc : c ∈ cs) {l : Literal}
    (hl : l ∈ c.literals) : l.Over cs :=
  ⟨mem_symbols.2 ⟨c, hc, l, hl, rfl, rfl⟩, fun _ ht => mem_terms.2 ⟨c, hc, l, hl, ht⟩⟩

theorem atoms_append {cs ds : List Clause} (h : ∀ d ∈ ds, ∀ l ∈ d.literals, l.Over cs) :
    atoms (cs ++ ds) = atoms cs := by
  have hs : symbols (cs ++ ds) = symbols cs := by
    rw [symbols, List.flatMap_append, List.map_append]
    refine eraseDups_append_of_subset fun a ha => ?_
    obtain ⟨l, hl, rfl⟩ := List.mem_map.1 ha
    obtain ⟨d, hd, hl⟩ := List.mem_flatMap.1 hl
    exact List.mem_eraseDups.1 (h d hd l hl).1
  have ht : terms (cs ++ ds) = terms cs := by
    rw [terms, List.flatMap_append, List.flatMap_append]
    refine eraseDups_append_of_subset fun t ht => ?_
    obtain ⟨l, hl, ht⟩ := List.mem_flatMap.1 ht
    obtain ⟨d, hd, hl⟩ := List.mem_flatMap.1 hl
    exact List.mem_eraseDups.1 ((h d hd l hl).2 t ht)
  rw [atoms, hs, ht, atoms]

/-- One literal list for each choice of absent, positive or negative. -/
def clausesOver : List Atom → List (List Literal)
  | [] => [[]]
  | a :: rest => (clausesOver rest).flatMap fun ls => [ls, a.positive :: ls, a.negative :: ls]

theorem exists_perm_mem_clausesOver {l : List Atom} {ls : List Literal} (hnodup : ls.Nodup)
    (htaut : ∀ m ∈ ls, m.negate ∉ ls) (hover : ∀ m ∈ ls, m.atom ∈ l) :
    ∃ ms ∈ clausesOver l, ls.Perm ms := by
  induction l generalizing ls with
  | nil =>
      cases ls with
      | nil => exact ⟨[], by simp [clausesOver], .nil⟩
      | cons m ls => simpa using hover m
  | cons a l ih =>
      have hrest : ∀ m ∈ ls, m ≠ a.positive → m ≠ a.negative → m.atom ∈ l := by
        intro m hm hp hn
        rcases List.mem_cons.1 (hover m hm) with h | h
        · rcases m.eq_positive_or_negative with e | e
          · exact absurd (h ▸ e) hp
          · exact absurd (h ▸ e) hn
        · exact h
      have hsplit : ∀ m ∈ ls, (m = a.positive ∨ m = a.negative) →
          ∃ ms ∈ clausesOver l, ls.Perm (m :: ms) := by
        intro m hm hma
        obtain ⟨ms, hms, hperm⟩ := ih (hnodup.erase m)
          (fun k hk hk' => htaut k (List.mem_of_mem_erase hk) (List.mem_of_mem_erase hk'))
          (fun k hk => by
            obtain ⟨hkm, hkls⟩ := hnodup.mem_erase_iff.1 hk
            rcases hma with rfl | rfl
            · refine hrest k hkls hkm (fun e => htaut _ hm ?_)
              rw [Atom.negate_positive, ← e]
              exact hkls
            · exact hrest k hkls (fun e => htaut k hkls (by rw [e]; exact hm)) hkm)
        exact ⟨ms, hms, (List.perm_cons_erase hm).trans (hperm.cons m)⟩
      by_cases hp : a.positive ∈ ls
      · obtain ⟨ms, hms, hperm⟩ := hsplit _ hp (.inl rfl)
        exact ⟨_, List.mem_flatMap.2 ⟨ms, hms, by simp⟩, hperm⟩
      · by_cases hn : a.negative ∈ ls
        · obtain ⟨ms, hms, hperm⟩ := hsplit _ hn (.inr rfl)
          exact ⟨_, List.mem_flatMap.2 ⟨ms, hms, by simp⟩, hperm⟩
        · obtain ⟨ms, hms, hperm⟩ := ih hnodup htaut
            (fun m hm => hrest m hm (fun e => hp (e ▸ hm)) (fun e => hn (e ▸ hm)))
          exact ⟨_, List.mem_flatMap.2 ⟨ms, hms, by simp⟩, hperm⟩

/-- How many of the listed clauses are not yet in a clause list, up to the order of literals. -/
def room (cs : List Clause) : Nat :=
  (clausesOver (atoms cs)).countP fun ls => !cs.any fun c => c.literals.isPerm ls

theorem countP_lt_of_imp {α : Type} {p q : α → Bool} {l : List α}
    (hpq : ∀ a ∈ l, p a = true → q a = true) {a : α} (ha : a ∈ l) (hq : q a = true)
    (hp : p a = false) : l.countP p < l.countP q := by
  induction l with
  | nil => simp at ha
  | cons b l ih =>
      have hl : ∀ a ∈ l, p a = true → q a = true := fun a h => hpq a (List.mem_cons_of_mem b h)
      simp only [List.countP_cons]
      rcases List.mem_cons.1 ha with rfl | h
      · have := List.countP_mono_left hl
        simp only [hq, hp, Bool.false_eq_true, if_false, if_true]
        omega
      · have := ih hl h
        have hb : (if p b = true then 1 else 0) ≤ (if q b = true then 1 else 0) := by
          cases hpb : p b with
          | false => simp
          | true => simp [hpq b List.mem_cons_self hpb]
        omega

/-- A new clause over the old atoms leaves less room. -/
theorem room_concat_lt {cs : List Clause} {d : Clause} (hover : ∀ l ∈ d.literals, l.Over cs)
    (hnodup : d.literals.Nodup) (htaut : d.isTautology = false)
    (hnew : ∀ c ∈ cs, d.same c = false) : room (cs ++ [d]) < room cs := by
  have hatoms : atoms (cs ++ [d]) = atoms cs :=
    atoms_append fun e he l hl => hover l (List.mem_singleton.1 he ▸ hl)
  have htaut' : ∀ m ∈ d.literals, m.negate ∉ d.literals := by
    intro m hm hm'
    have : d.isTautology = true := Clause.isTautology_iff.2 ⟨m, hm, hm'⟩
    simp [htaut] at this
  obtain ⟨ms, hms, hperm⟩ := exists_perm_mem_clausesOver hnodup htaut'
    (fun m hm => Literal.over_iff.1 (hover m hm))
  rw [room, hatoms, room]
  refine countP_lt_of_imp (fun ls _ h => ?_) hms ?_ ?_
  · simp only [List.any_append, Bool.not_or, Bool.and_eq_true] at h
    exact h.1
  · simp only [Bool.not_eq_true', List.any_eq_false]
    intro c hc hcm
    have : d.same c = true := Clause.same_iff.2 (hperm.trans (List.isPerm_iff.1 hcm).symm)
    simp [hnew c hc] at this
  · simp only [Bool.not_eq_false', List.any_append, Bool.or_eq_true, List.any_eq_true]
    exact .inr ⟨d, List.mem_singleton.2 rfl, List.isPerm_iff.2 hperm⟩

end Resolution
