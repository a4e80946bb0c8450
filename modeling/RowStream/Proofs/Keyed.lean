import Mathlib.Data.List.Sort
import RowStream.Keyed

/-!
# Lists of values by key

To put a value under a key keeps the order of the keys, so every list that is made by putting values has
each key once (`Ordered`), whatever order they came in. Values under different keys are all there in the
end, and which they are decides the list.

* `ordered_ofList`: the keys of a list of values.
* `ofList_perm`: the values under different keys.
-/

namespace RowStream

namespace Keyed

variable {α : Type} {m : List (String × α)} {key : String} {a : α}

/-- The keys are in order, each once. -/
def Ordered (m : List (String × α)) : Prop := m.Pairwise fun x y => x.1 < y.1

theorem mem_put {x : String × α} (h : x ∈ put key a m) : x = (key, a) ∨ x ∈ m := by
  induction m with
  | nil => exact .inl (List.mem_singleton.mp h)
  | cons y m ih =>
    rw [put] at h
    split at h
    · exact List.mem_cons.mp h
    · split at h
      · exact (List.mem_cons.mp h).imp_right (List.mem_cons_of_mem y)
      · rcases List.mem_cons.mp h with rfl | h
        · exact .inr List.mem_cons_self
        · exact (ih h).imp_right (List.mem_cons_of_mem y)

theorem mem_put_self (key : String) (a : α) (m : List (String × α)) : (key, a) ∈ put key a m := by
  induction m with
  | nil => exact List.mem_cons_self
  | cons y m ih =>
    rw [put]
    split
    · exact List.mem_cons_self
    · split
      · exact List.mem_cons_self
      · exact List.mem_cons_of_mem y ih

/-- To put a value under a key keeps the order. -/
theorem Ordered.put (h : Ordered m) (key : String) (a : α) : Ordered (put key a m) := by
  induction m with
  | nil => exact List.pairwise_singleton _ _
  | cons y m ih =>
    obtain ⟨hy, hm⟩ := List.pairwise_cons.mp h
    rw [Keyed.put]
    split
    · rename_i hlt
      refine List.pairwise_cons.mpr ⟨fun x hx => ?_, h⟩
      rcases List.mem_cons.mp hx with rfl | hx
      · exact hlt
      · exact String.lt_trans hlt (hy x hx)
    · rename_i hge
      split
      · rename_i heq
        exact List.pairwise_cons.mpr ⟨fun x hx => heq ▸ hy x hx, hm⟩
      · rename_i hne
        refine List.pairwise_cons.mpr ⟨fun x hx => ?_, ih hm⟩
        rcases mem_put hx with rfl | hx
        · exact Std.lt_of_le_of_ne (String.not_lt.mp hge) (Ne.symm hne)
        · exact hy x hx

theorem foldl_put {entries : List (String × α)} (h : Ordered m) :
    Ordered (entries.foldl (fun m e => put e.1 e.2 m) m) ∧
      ∀ x ∈ entries.foldl (fun m e => put e.1 e.2 m) m, x ∈ m ∨ x ∈ entries := by
  induction entries generalizing m with
  | nil => exact ⟨h, fun x hx => .inl hx⟩
  | cons e entries ih =>
    obtain ⟨hordered, hmem⟩ := ih (h.put e.1 e.2)
    refine ⟨hordered, fun x hx => ?_⟩
    rcases hmem x hx with hx | hx
    · exact (mem_put hx).elim (fun heq => .inr (heq ▸ List.mem_cons_self)) .inl
    · exact .inr (List.mem_cons_of_mem e hx)

/-- **The keys of a list of values** are in order, whatever order they came in. -/
theorem ordered_ofList (entries : List (String × α)) : Ordered (ofList entries) :=
  (foldl_put List.Pairwise.nil).1

theorem mem_of_mem_ofList {entries : List (String × α)} {x : String × α} (h : x ∈ ofList entries) :
    x ∈ entries :=
  ((foldl_put List.Pairwise.nil).2 x h).resolve_left List.not_mem_nil

theorem Ordered.nodup (h : Ordered m) : (m.map (·.1)).Nodup :=
  List.pairwise_map.mpr (h.imp fun hlt => Std.ne_of_lt hlt)

theorem Ordered.get?_of_mem (h : Ordered m) (hm : (key, a) ∈ m) : get? m key = some a := by
  induction m with
  | nil => exact absurd hm List.not_mem_nil
  | cons x m ih =>
    obtain ⟨hx, hrest⟩ := List.pairwise_cons.mp h
    rcases List.mem_cons.mp hm with rfl | hm
    · simp [get?]
    · have hne : (x.1 == key) = false := beq_false_of_ne (Std.ne_of_lt (hx _ hm))
      rw [get?, List.find?_cons, hne]
      exact ih hrest hm

theorem mem_of_get? (h : get? m key = some a) : (key, a) ∈ m := by
  obtain ⟨x, hx, rfl⟩ := Option.map_eq_some_iff.mp h
  have hkey : x.1 = key := by simpa using List.find?_some hx
  exact hkey ▸ List.mem_of_find?_eq_some hx

theorem get?_eq_none : get? m key = none ↔ key ∉ m.map (·.1) := by
  simp only [get?, Option.map_eq_none_iff, List.find?_eq_none, beq_iff_eq, List.mem_map, not_exists,
    not_and]

theorem get?_cons_self (key : String) (a : α) (m : List (String × α)) :
    get? ((key, a) :: m) key = some a := by
  simp [get?]

theorem get?_cons_of_ne {other : String} (h : other ≠ key) (a : α) (m : List (String × α)) :
    get? ((other, a) :: m) key = get? m key := by
  rw [get?, List.find?_cons_of_neg (by simpa using h), ← get?]

/-- What is found after a value was put under a key. -/
theorem get?_put (key : String) (a : α) (m : List (String × α)) (name : String) :
    get? (put key a m) name = if name = key then some a else get? m name := by
  have hfirst (rest : List (String × α)) : get? ((key, a) :: rest) name =
      if name = key then some a else get? rest name := by
    split
    · rename_i heq
      rw [heq, get?_cons_self]
    · rename_i hne
      exact get?_cons_of_ne (Ne.symm hne) a rest
  induction m with
  | nil => exact hfirst []
  | cons y m ih =>
    obtain ⟨k, b⟩ := y
    rw [put]
    split
    · exact hfirst ((k, b) :: m)
    · split
      · rename_i heq
        subst heq
        rw [hfirst]
        split
        · rfl
        · rename_i hne
          exact (get?_cons_of_ne (Ne.symm hne) b m).symm
      · rename_i hkey
        by_cases hk : k = name
        · -- the entry that is found stands before the place of the new one
          subst hk
          rw [if_neg (Ne.symm hkey), get?_cons_self, get?_cons_self]
        · rw [get?_cons_of_ne hk, get?_cons_of_ne hk, ih]

/-- What is found after all values were changed. -/
theorem get?_map {β : Type} (f : String → α → β) (m : List (String × α)) (key : String) :
    get? (m.map fun e => (e.1, f e.1 e.2)) key = (get? m key).map (f key) := by
  induction m with
  | nil => rfl
  | cons y m ih =>
    obtain ⟨k, b⟩ := y
    rw [List.map_cons]
    by_cases hk : k = key
    · subst hk
      rw [get?_cons_self, get?_cons_self, Option.map_some]
    · rw [get?_cons_of_ne hk, get?_cons_of_ne hk, ih]

/-- A value in place of another: what the two have in common stays. -/
theorem Ordered.map_put {β : Type} {b : α} (h : Ordered m) (hget : get? m key = some b)
    {f : α → β} (hf : f a = f b) :
    (Keyed.put key a m).map (fun e => (e.1, f e.2)) = m.map fun e => (e.1, f e.2) := by
  induction m with
  | nil => simp [get?] at hget
  | cons y m ih =>
    obtain ⟨hy, hm⟩ := List.pairwise_cons.mp h
    rw [Keyed.put]
    by_cases heq : key = y.1
    · subst heq
      obtain rfl : y.2 = b := by simpa [get?] using hget
      rw [if_neg (String.lt_irrefl _), if_pos rfl, List.map_cons, List.map_cons, hf]
    · have hrest : get? m key = some b := by
        rwa [get?, List.find?_cons_of_neg (by simpa using Ne.symm heq)] at hget
      have hlt : y.1 < key := hy _ (mem_of_get? hrest)
      rw [if_neg (String.lt_asymm hlt), if_neg heq, List.map_cons, List.map_cons, ih hm hrest]

/-- To take a value away leaves the others. -/
theorem Ordered.perm_filter_ne (h : Ordered m) (hget : get? m key = some a) :
    m.Perm ((key, a) :: m.filter fun e => e.1 != key) := by
  induction m with
  | nil => simp [get?] at hget
  | cons y m ih =>
    obtain ⟨hy, hm⟩ := List.pairwise_cons.mp h
    by_cases heq : key = y.1
    · subst heq
      obtain rfl : y.2 = a := by simpa [get?] using hget
      have hkeep : (y :: m).filter (fun e => e.1 != y.1) = m := by
        rw [List.filter_cons_of_neg (by simp), List.filter_eq_self]
        exact fun e he => by simpa using (Std.ne_of_lt (hy e he)).symm
      rw [hkeep]
    · have hrest : get? m key = some a := by
        rwa [get?, List.find?_cons_of_neg (by simpa using Ne.symm heq)] at hget
      rw [List.filter_cons_of_pos (by simpa using Ne.symm heq)]
      exact ((ih hm hrest).cons y).trans (.swap _ y _)

/-- The values decide an ordered list. -/
theorem Ordered.eq_of_perm {m' : List (String × α)} (h : Ordered m) (h' : Ordered m')
    (hperm : m.Perm m') : m = m' :=
  hperm.eq_of_pairwise (fun _ _ _ _ hxy hyx => absurd hxy (String.lt_asymm hyx)) h h'

/-- A value under a fresh key is one more. -/
theorem put_perm (h : key ∉ m.map (·.1)) : (put key a m).Perm ((key, a) :: m) := by
  induction m with
  | nil => exact .refl _
  | cons y m ih =>
    obtain ⟨hne, hrest⟩ := not_or.mp (List.mem_cons.not.mp h)
    rw [put, if_neg hne]
    split
    · exact .refl _
    · exact ((ih hrest).cons y).trans (.swap _ y m)

theorem foldl_put_perm {entries : List (String × α)}
    (h : (m.map (·.1) ++ entries.map (·.1)).Nodup) :
    (entries.foldl (fun m e => put e.1 e.2 m) m).Perm (m ++ entries) := by
  induction entries generalizing m with
  | nil => rw [List.append_nil]; exact .refl _
  | cons e entries ih =>
    have hput : (put e.1 e.2 m).Perm (e :: m) :=
      put_perm fun hmem => (List.nodup_append.mp h).2.2 _ hmem _ List.mem_cons_self rfl
    have hkeys : ((put e.1 e.2 m).map (·.1) ++ entries.map (·.1)).Nodup :=
      (((hput.map _).append_right _).trans List.perm_middle.symm).nodup_iff.mpr h
    exact ((ih hkeys).trans (hput.append_right _)).trans List.perm_middle.symm

/-- Values under different keys are all there. -/
theorem ofList_perm {entries : List (String × α)} (h : (entries.map (·.1)).Nodup) :
    (ofList entries).Perm entries :=
  foldl_put_perm h

/-- **The order in which values came in** does not matter, where their keys are different. -/
theorem Ordered.ofList_eq {entries : List (String × α)} (h : Ordered m) (hperm : entries.Perm m) :
    ofList entries = m :=
  have hkeys : (entries.map (·.1)).Nodup := (hperm.map _).nodup_iff.mpr h.nodup
  (ordered_ofList entries).eq_of_perm h ((ofList_perm hkeys).trans hperm)

end Keyed

end RowStream
