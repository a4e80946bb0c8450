import Mathlib.Data.List.Induction
import RowStream.Proofs.Table.Registered

/-!
# Whose columns are compiled

A name gets the message of the first scope that asks for it, so the columns of a STRUCT column are passed
over when its joined name was asked for before. Whether they are depends on which earlier STRUCT columns
were compiled themselves (`Scope.Opens`). The recursion ends since the scope around a STRUCT column has a
shorter name than any scope that can take the name of the column.

The columns that are compiled stand in the order of their places. What is asked for up to a place is
known there, except for the names of the scopes around it, which are taken at their ends
(`Scope.Asked`).

* `opens_concat_iff`: a STRUCT column whose columns are compiled.
* `Compiles.next`: from one column to the next one of its scope.
* `opens_iff_not_asked`, `asked_enter`, `asked_next`: the names that are asked for up to a place.
-/

namespace RowStream.Table.Scope

variable {root s t : Scope} {p q : List Nat} {i j : Nat} {c c' : Column}

/-- The columns at a place are compiled: those of the table are, and those of a STRUCT column that is
compiled itself, unless a STRUCT column that is compiled before it has its joined name. -/
def Opens (root : Scope) (p : List Nat) : Prop :=
  (root.at? p).isSome ∧ ∀ t, root.at? p = some t →
    (∀ q i, p = q ++ [i] → root.Opens q) ∧
      ∀ q i u, q ++ [i] < p → root.at? (q ++ [i]) = some u → u.name = t.name → ¬ root.Opens q
termination_by ((root.at? p).map (·.name.length)).getD 0
decreasing_by
  -- the scope around another has a shorter name, also where the other only shares the name
  · rename_i hp heq
    rw [heq, at?_concat] at hp
    obtain ⟨s, hs, hsub⟩ := Option.bind_eq_some_iff.mp hp
    rw [hs, heq, at?_concat, hs, Option.bind_some, hsub]
    exact length_lt_of_sub? hsub
  · rename_i hp _ hu hname
    obtain ⟨s, hs, hsub⟩ := Option.bind_eq_some_iff.mp (at?_concat root q i ▸ hu)
    rw [hs, hp]
    simp only [Option.map_some, Option.getD_some, ← hname]
    exact length_lt_of_sub? hsub

theorem opens_nil (root : Scope) : root.Opens [] := by
  rw [Opens]
  refine ⟨rfl, fun t _ => ⟨fun q i h => absurd h (by simp), fun q i u h => ?_⟩⟩
  exact absurd h (List.not_lt_nil _)

/-- **Which STRUCT columns have their columns compiled.** -/
theorem opens_concat_iff (ht : root.at? (p ++ [i]) = some t) : root.Opens (p ++ [i]) ↔
    root.Opens p ∧ ∀ q j u, q ++ [j] < p ++ [i] → root.Opens q → root.at? (q ++ [j]) = some u →
      u.name ≠ t.name := by
  rw [Opens, ht]
  simp only [Option.isSome_some, Option.some.injEq, forall_eq', true_and]
  constructor
  · rintro ⟨haround, hfirst⟩
    exact ⟨haround p i rfl, fun q j u hlt hq hu hname => hfirst q j u hlt hu hname hq⟩
  · rintro ⟨haround, hfirst⟩
    refine ⟨fun q j heq => ?_, fun q j u hlt hu hname hq => hfirst q j u hlt hq hu hname⟩
    exact (List.append_inj' heq rfl).1 ▸ haround

theorem Opens.at? (h : root.Opens p) : ∃ t, root.at? p = some t := by
  rw [Opens] at h
  exact Option.isSome_iff_exists.mp h.1

/-- What is around a place whose columns are compiled is compiled too. -/
theorem Opens.of_append {r : List Nat} (h : root.Opens (p ++ r)) : root.Opens p := by
  induction r using List.reverseRecOn with
  | nil => exact List.append_nil p ▸ h
  | append_singleton r i ih =>
    obtain ⟨t, ht⟩ := h.at?
    rw [← List.append_assoc] at h ht
    exact ih ((opens_concat_iff ht).mp h).1

/-- The column is at a position of a place whose columns are compiled. -/
def Compiles (root : Scope) (p : List Nat) (i : Nat) (c : Column) : Prop :=
  root.Opens p ∧ ∃ s, root.at? p = some s ∧ s.columns[i]? = some c

/-! ## The order of places -/

/-- What is before a place below `b` is before `b`, or it is `b` or below an earlier column of it. -/
theorem lt_concat_iff {x b : List Nat} {n : Nat} :
    x < b ++ [n] ↔ x < b ∨ ∃ r, x = b ++ r ∧ ∀ j r', r = j :: r' → j < n := by
  induction b generalizing x with
  | nil => cases x <;> simp [List.cons_lt_cons_iff]
  | cons a b ih =>
    cases x with
    | nil => simp
    | cons c x =>
      simp only [List.cons_append, List.cons_lt_cons_iff, ih, List.cons.injEq]
      constructor
      · rintro (hlt | ⟨rfl, hlt | ⟨r, rfl, hr⟩⟩)
        · exact .inl (.inl hlt)
        · exact .inl (.inr ⟨rfl, hlt⟩)
        · exact .inr ⟨r, ⟨rfl, rfl⟩, hr⟩
      · rintro ((hlt | ⟨rfl, hlt⟩) | ⟨r, ⟨rfl, rfl⟩, hr⟩)
        · exact .inl hlt
        · exact .inr ⟨rfl, .inl hlt⟩
        · exact .inr ⟨rfl, .inr ⟨r, rfl, hr⟩⟩

theorem concat_le {p : List Nat} {k n : Nat} (h : k ≤ n) : p ++ [k] ≤ p ++ [n] := by
  rcases Nat.eq_or_lt_of_le h with rfl | hlt
  · exact le_refl _
  · exact le_of_lt (List.append_left_lt (List.cons_lt_cons_iff.mpr (.inl hlt)))

theorem nil_lt_concat (q : List Nat) (i : Nat) : [] < q ++ [i] := by
  cases q <;> exact List.nil_lt_cons _ _

theorem concat_zero_le {x b : List Nat} (h : b < x) : b ++ [0] ≤ x := by
  refine not_lt.mp fun hbefore => ?_
  rcases lt_concat_iff.mp hbefore with hlt | ⟨r, rfl, hr⟩
  · exact lt_asymm h hlt
  · cases r with
    | nil => simp at h
    | cons j r => exact Nat.not_lt_zero j (hr j r rfl)

/-- What is before the next column of a scope is before the column, or it is the column or below it. -/
theorem lt_next_iff {x p : List Nat} {k : Nat} :
    x < p ++ [k + 1] ↔ x < p ++ [k] ∨ ∃ r, x = p ++ [k] ++ r := by
  constructor
  · intro h
    rcases lt_concat_iff.mp h with hlt | ⟨r, rfl, hr⟩
    · exact .inl (Compile.lt_concat_of_lt hlt k)
    cases r with
    | nil => exact .inl (by simpa using Compile.lt_concat p k)
    | cons j r =>
      rcases Nat.lt_succ_iff_lt_or_eq.mp (hr j r rfl) with hj | rfl
      · exact .inl (lt_concat_iff.mpr (.inr ⟨_, rfl, fun j' r' h => (List.cons.inj h).1 ▸ hj⟩))
      · exact .inr ⟨r, by simp⟩
  · rintro (hlt | ⟨r, rfl⟩)
    · exact hlt.trans (List.append_left_lt (List.cons_lt_cons_iff.mpr (.inl (Nat.lt_succ_self k))))
    · refine lt_concat_iff.mpr (.inr ⟨k :: r, by simp, fun j r' h => ?_⟩)
      exact (List.cons.inj h).1 ▸ Nat.lt_succ_self k

/-- A compiled column at a place or below it is there, or the columns at the place are compiled too, and
it is one of them or below. -/
theorem Compiles.below {b r : List Nat} (h : root.Compiles q i c) (heq : q ++ [i] = b ++ r) :
    r = [] ∨ root.Opens b ∧ ∃ t, root.at? b = some t ∧
      ∀ j r', r = j :: r' → j < t.columns.length := by
  obtain ⟨hopen, s, hs, hc⟩ := h
  induction r using List.reverseRecOn with
  | nil => exact .inl rfl
  | append_singleton r k _ =>
    rw [← List.append_assoc] at heq
    obtain ⟨rfl, hik⟩ := List.append_inj' heq rfl
    obtain rfl : i = k := by simpa using hik
    obtain ⟨t, ht⟩ := hopen.of_append.at?
    refine .inr ⟨hopen.of_append, t, ht, fun j r' hr => ?_⟩
    rw [at?_append, ht, Option.bind_some] at hs
    cases r with
    | nil =>
      obtain rfl : t = s := by simpa [at?] using hs
      obtain rfl : i = j := by simpa using (List.cons.inj hr).1
      exact (List.getElem?_eq_some_iff.mp hc).1
    | cons j' r =>
      obtain ⟨rfl, -⟩ := List.cons.inj hr
      obtain ⟨_, hsub, -⟩ := Option.bind_eq_some_iff.mp hs
      obtain ⟨_, hcol, -⟩ := sub?_eq_some.mp hsub
      exact (List.getElem?_eq_some_iff.mp hcol).1

/-- **The compiled columns before the next column of a scope**: those before the column, the column, and
those below it if they are compiled. -/
theorem Compiles.next {k : Nat} (h : root.Compiles q i c) (hlt : q ++ [i] < p ++ [k + 1]) :
    q ++ [i] < p ++ [k] ∨ q ++ [i] = p ++ [k] ∨ root.Opens (p ++ [k]) ∧
      ∃ t, root.at? (p ++ [k]) = some t ∧ p ++ [k] < q ++ [i] ∧
        q ++ [i] < p ++ [k] ++ [t.columns.length] := by
  refine (lt_next_iff.mp hlt).imp_right ?_
  rintro ⟨r, hr⟩
  rcases h.below hr with rfl | ⟨hopen, t, ht, hbound⟩
  · exact .inl (hr.trans (List.append_nil _))
  cases r with
  | nil => exact .inl (hr.trans (List.append_nil _))
  | cons j r =>
    refine .inr ⟨hopen, t, ht, ?_, lt_concat_iff.mpr (.inr ⟨_, hr, hbound⟩)⟩
    have hbelow : p ++ [k] ++ [] < p ++ [k] ++ j :: r := List.append_left_lt (List.nil_lt_cons j r)
    rwa [List.append_nil, ← hr] at hbelow

theorem Compiles.unique (h : root.Compiles p i c) (h' : root.Compiles q j c')
    (heq : p ++ [i] = q ++ [j]) : c = c' := by
  obtain ⟨rfl, hij⟩ := List.append_inj' heq rfl
  obtain rfl : i = j := by simpa using hij
  obtain ⟨-, s, hs, hc⟩ := h
  obtain ⟨-, s', hs', hc'⟩ := h'
  obtain rfl : s = s' := Option.some.inj (hs.symm.trans hs')
  exact Option.some.inj (hc.symm.trans hc')

/-- The compiled columns are at places below the table. -/
theorem Compiles.bounds (h : root.Compiles q i c) :
    [0] ≤ q ++ [i] ∧ q ++ [i] < [root.columns.length] := by
  refine ⟨concat_zero_le (nil_lt_concat q i), ?_⟩
  rcases h.below (b := []) (List.nil_append _).symm with hnone | ⟨-, t, ht, hbound⟩
  · exact absurd hnone (by simp)
  · obtain rfl : root = t := Option.some.inj ht
    exact lt_concat_iff (b := []).mpr (.inr ⟨_, rfl, hbound⟩)

/-! ## Names that are asked for -/

/-- A STRUCT column that is compiled before the place `b`, and does not lie around the place `p`, has the
joined name. -/
def Asked (root : Scope) (p b : List Nat) (n : String) : Prop :=
  ∃ q i u, root.Opens q ∧ root.at? (q ++ [i]) = some u ∧ u.name = n ∧ q ++ [i] < b ∧ ¬ q ++ [i] <+: p

variable {k : Nat} {n : String}

/-- The names of the scopes around a place are shorter. -/
theorem length_lt_of_around {x : List Nat} {u : Scope} (hx : x <+: p) (hu : root.at? x = some u)
    (ht : root.at? (p ++ [k]) = some t) : u.name.length < t.name.length := by
  obtain ⟨r, rfl⟩ := hx
  obtain ⟨s, hs, hsub⟩ := Option.bind_eq_some_iff.mp (at?_concat root (x ++ r) k ▸ ht)
  rw [at?_append, hu] at hs
  exact Nat.lt_of_le_of_lt (length_le_of_at? hs) (length_lt_of_sub? hsub)

/-- **A STRUCT column has its columns compiled exactly if its name was not asked for.** -/
theorem opens_iff_not_asked (hp : root.Opens p) (ht : root.at? (p ++ [k]) = some t) :
    root.Opens (p ++ [k]) ↔ ¬ root.Asked p (p ++ [k]) t.name := by
  rw [opens_concat_iff ht]
  constructor
  · rintro ⟨-, hfirst⟩ ⟨q, i, u, hq, hu, hname, hlt, -⟩
    exact hfirst q i u hlt hq hu hname
  · intro hnot
    refine ⟨hp, fun q i u hlt hq hu hname => hnot ⟨q, i, u, hq, hu, hname, hlt, fun hprefix => ?_⟩⟩
    exact absurd (length_lt_of_around hprefix hu ht) (by rw [hname]; exact Nat.lt_irrefl _)

theorem prefix_concat_iff {x : List Nat} : x <+: p ++ [k] ↔ x <+: p ∨ x = p ++ [k] := by
  rw [List.prefix_concat_iff, or_comm]

theorem compiles_of_at? {u : Scope} (hq : root.Opens q) (hu : root.at? (q ++ [i]) = some u) :
    ∃ c, root.Compiles q i c := by
  obtain ⟨s, hs, hsub⟩ := Option.bind_eq_some_iff.mp (at?_concat root q i ▸ hu)
  obtain ⟨c, hc, -⟩ := sub?_eq_some.mp hsub
  exact ⟨c, hq, s, hs, hc⟩

/-- On the way into a STRUCT column nothing more is asked for. -/
theorem asked_enter : root.Asked (p ++ [k]) (p ++ [k] ++ [0]) n ↔ root.Asked p (p ++ [k]) n := by
  have hbefore (x : List Nat) : x < p ++ [k] ++ [0] ∧ ¬ x <+: p ++ [k] ↔ x < p ++ [k] ∧ ¬ x <+: p := by
    rw [prefix_concat_iff, not_or]
    constructor
    · rintro ⟨hlt, hprefix, hne⟩
      refine ⟨lt_of_le_of_ne (not_lt.mp fun h => ?_) hne, hprefix⟩
      exact absurd hlt (not_lt_of_ge (concat_zero_le h))
    · rintro ⟨hlt, hprefix⟩
      exact ⟨Compile.lt_concat_of_lt hlt 0, hprefix, ne_of_lt hlt⟩
  simp only [Asked, hbefore]

/-- **What is asked for before the next column**: what was before, and the name of the column's own
message with what is asked for inside, if that is compiled. -/
theorem asked_next (ht : root.at? (p ++ [k]) = some t) (hp : root.Opens (p ++ [k])) :
    root.Asked p (p ++ [k + 1]) n ↔
      root.Asked (p ++ [k]) (p ++ [k] ++ [t.columns.length]) n ∨ n = t.name := by
  constructor
  · rintro ⟨q, i, u, hq, hu, hname, hlt, hprefix⟩
    obtain ⟨c, hc⟩ := compiles_of_at? hq hu
    have hinside (h : q ++ [i] < p ++ [k] ++ [t.columns.length]) (hne : q ++ [i] ≠ p ++ [k]) :
        root.Asked (p ++ [k]) (p ++ [k] ++ [t.columns.length]) n :=
      ⟨q, i, u, hq, hu, hname, h, fun h' => (prefix_concat_iff.mp h').elim hprefix hne⟩
    rcases hc.next hlt with h | h | ⟨-, t', ht', hlow, hhigh⟩
    · exact .inl (hinside (Compile.lt_concat_of_lt h _) (ne_of_lt h))
    · rw [h, ht] at hu
      exact .inr (Option.some.inj hu ▸ hname.symm)
    · obtain rfl : t = t' := Option.some.inj (ht.symm.trans ht')
      exact .inl (hinside hhigh (ne_of_gt hlow))
  · rintro (⟨q, i, u, hq, hu, hname, hlt, hprefix⟩ | rfl)
    · exact ⟨q, i, u, hq, hu, hname, Compile.lt_next hlt, fun h => hprefix (prefix_concat_iff.mpr (.inl h))⟩
    · refine ⟨p, k, t, hp.of_append, ht, rfl, lt_next_iff.mpr (.inr ⟨[], by simp⟩), fun h => ?_⟩
      exact absurd h.length_le (by simp)

/-- A column that is passed over adds no names but its own. -/
theorem asked_next_of_not (hnot : ¬ root.Opens (p ++ [k]))
    (hname : ∀ t, root.at? (p ++ [k]) = some t → root.Asked p (p ++ [k]) t.name) :
    root.Asked p (p ++ [k + 1]) n ↔ root.Asked p (p ++ [k]) n := by
  constructor
  · rintro ⟨q, i, u, hq, hu, rfl, hlt, hprefix⟩
    obtain ⟨c, hc⟩ := compiles_of_at? hq hu
    rcases hc.next hlt with h | h | ⟨hopen, -⟩
    · exact ⟨q, i, u, hq, hu, rfl, h, hprefix⟩
    · exact hname u (h ▸ hu)
    · exact absurd hopen hnot
  · rintro ⟨q, i, u, hq, hu, hname, hlt, hprefix⟩
    exact ⟨q, i, u, hq, hu, hname, lt_next_iff.mpr (.inl hlt), hprefix⟩

end RowStream.Table.Scope
