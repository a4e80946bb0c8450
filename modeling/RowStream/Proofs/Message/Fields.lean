import RowStream.Message.Wire

/-!
# Values by number

The values of a message stand in order of number, each number once (`Ordered`). Setting and erasing keep
this, and what they do shows in which pairs are there.

To put a value into a field is to set its number where no other field of its choice is set. A message is
simple when no two of its fields stand in one choice at all.

* `mem_set`, `mem_erase`: the values after a change.
* `set_last`: a value with the highest number goes to the end.
* `put_of_free`, `put_eq`: values that are put into fields.
-/

namespace RowStream.Message.Fields

/-- The values stand in order of number, each number once. -/
def Ordered (m : Fields) : Prop := m.Pairwise fun x y => x.1 < y.1

variable {m done : Fields} {n k : Nat} {v w : Value}

theorem mem_erase {x : Nat × Value} : x ∈ erase m n ↔ x ∈ m ∧ x.1 ≠ n := by
  simp [erase]

theorem erase_erase (m : Fields) (n : Nat) : erase (erase m n) n = erase m n := by
  simp [erase, List.filter_filter]

theorem mem_insert {x : Nat × Value} : x ∈ insert n v m ↔ x = (n, v) ∨ x ∈ m := by
  induction m with
  | nil => simp [insert]
  | cons y m ih =>
    rw [insert]
    split
    · simp
    · simp only [List.mem_cons, ih]
      exact or_left_comm

/-- The pairs after a value is set. -/
theorem mem_set {x : Nat × Value} : x ∈ set m n v ↔ x = (n, v) ∨ (x ∈ m ∧ x.1 ≠ n) := by
  rw [set, mem_insert, mem_erase]

/-- Erasing numbers before a value is set changes nothing if no other of them is there. -/
theorem foldl_erase_set {ks : List Nat} (h : ∀ k ∈ ks, k = n ∨ ∀ x ∈ m, x.1 ≠ k) (v : Value) :
    (ks.foldl erase m).set n v = m.set n v := by
  induction ks generalizing m with
  | nil => rfl
  | cons k ks ih =>
    obtain ⟨hk, hks⟩ := List.forall_mem_cons.mp h
    have hrest : ∀ j ∈ ks, j = n ∨ ∀ x ∈ erase m k, x.1 ≠ j := fun j hj =>
      (hks j hj).imp_right fun hfree x hx => hfree x (mem_erase.mp hx).1
    rw [List.foldl_cons, ih hrest]
    rcases hk with rfl | hfree
    · rw [set, erase_erase, set]
    · have hsame : erase m k = m := List.filter_eq_self.mpr fun x hx => by simpa using hfree x hx
      rw [hsame]

theorem Ordered.erase (h : Ordered m) (n : Nat) : Ordered (erase m n) := List.Pairwise.filter _ h

theorem Ordered.insert (h : Ordered m) (hn : ∀ x ∈ m, x.1 ≠ n) (v : Value) :
    Ordered (insert n v m) := by
  induction m with
  | nil => exact List.pairwise_singleton _ _
  | cons y m ih =>
    obtain ⟨hy, hm⟩ := List.pairwise_cons.mp h
    obtain ⟨hyn, hrest⟩ := List.forall_mem_cons.mp hn
    rw [Fields.insert]
    split
    · rename_i hlt
      refine List.pairwise_cons.mpr ⟨fun x hx => ?_, h⟩
      rcases List.mem_cons.mp hx with rfl | hx
      · exact hlt
      · exact Nat.lt_trans hlt (hy x hx)
    · refine List.pairwise_cons.mpr ⟨fun x hx => ?_, ih hm hrest⟩
      rcases mem_insert.mp hx with rfl | hx
      · show y.1 < n
        omega
      · exact hy x hx

/-- Setting a value keeps the order. -/
theorem Ordered.set (h : Ordered m) (n : Nat) (v : Value) : Ordered (set m n v) :=
  (h.erase n).insert (fun _ hx => (mem_erase.mp hx).2) v

/-- In an ordered message a number has the value that is there. -/
theorem Ordered.get?_eq_some (h : Ordered m) : m.get? k = some w ↔ (k, w) ∈ m := by
  unfold get?
  constructor
  · intro hget
    obtain ⟨x, hx, rfl⟩ := Option.map_eq_some_iff.mp hget
    have hk : x.1 = k := by simpa using List.find?_some hx
    exact hk ▸ List.mem_of_find?_eq_some hx
  · intro hmem
    induction m with
    | nil => exact absurd hmem List.not_mem_nil
    | cons y m ih =>
      obtain ⟨hy, hm⟩ := List.pairwise_cons.mp h
      rcases List.mem_cons.mp hmem with rfl | hmem
      · simp
      · have hne : y.1 ≠ k := Nat.ne_of_lt (hy _ hmem)
        rw [List.find?_cons_of_neg (by simpa using hne)]
        exact ih hm hmem

theorem get?_eq_none : m.get? k = none ↔ ∀ x ∈ m, x.1 ≠ k := by
  simp [get?]

/-- What is there after a value is set. -/
theorem Ordered.get?_set (h : Ordered m) : (m.set n v).get? k = if k = n then some v else m.get? k := by
  refine Option.ext fun w => ?_
  rw [(h.set n v).get?_eq_some, mem_set, Prod.mk.injEq]
  split
  · rename_i hk
    subst hk
    simp [eq_comm]
  · rename_i hk
    simp [hk, h.get?_eq_some]

/-- What is there after a number is erased. -/
theorem Ordered.get?_erase (h : Ordered m) : (m.erase n).get? k = if k = n then none else m.get? k := by
  refine Option.ext fun w => ?_
  rw [(h.erase n).get?_eq_some, mem_erase]
  split
  · rename_i hk
    simp [hk]
  · rename_i hk
    simp [hk, h.get?_eq_some]

theorem insert_last (h : ∀ x ∈ done, x.1 < n) : insert n v done = done ++ [(n, v)] := by
  induction done with
  | nil => rfl
  | cons y done ih =>
    obtain ⟨hy, hrest⟩ := List.forall_mem_cons.mp h
    rw [insert, if_neg (Nat.not_lt.mpr (Nat.le_of_lt hy)), ih hrest, List.cons_append]

theorem erase_of_lt (h : ∀ x ∈ done, x.1 < n) : erase done n = done :=
  List.filter_eq_self.mpr fun x hx => by simpa using Nat.ne_of_lt (h x hx)

/-- A value with the highest number goes to the end. -/
theorem set_last (h : ∀ x ∈ done, x.1 < n) (v : Value) : done.set n v = done ++ [(n, v)] := by
  rw [set, erase_of_lt h, insert_last h]

/-- The last value is replaced where it stands. -/
theorem set_set_last (h : ∀ x ∈ done, x.1 < n) (v w : Value) :
    (done ++ [(n, v)] : Fields).set n w = done ++ [(n, w)] := by
  have herase : (done ++ [(n, v)] : Fields).erase n = done := by
    have hdone := erase_of_lt h
    simp only [erase] at hdone ⊢
    rw [List.filter_append, hdone]
    simp
  rw [set, herase, insert_last h]

theorem get?_last (h : ∀ x ∈ done, x.1 < n) (v : Value) :
    (done ++ [(n, v)] : Fields).get? n = some v := by
  have hnone : done.find? (fun x => x.1 == n) = none :=
    List.find?_eq_none.mpr fun x hx => by simpa using Nat.ne_of_lt (h x hx)
  simp [get?, List.find?_append, hnone]

end RowStream.Message.Fields

namespace RowStream.Message

/-- No two fields of the message stand in one choice, and it is no map entry. -/
structure Unbound (m : Pool.Message) : Prop where
  alone : ∀ f ∈ m.fields, ∀ k ∈ m.siblings f, k = f.number
  unmapped : m.isMapEntry = false

variable {m : Pool.Message} {f : Pool.Field} {fields : Fields}

/-- A field of a choice that no other field of is set is put in by its number. -/
theorem put_of_free (h : ∀ k ∈ m.siblings f, k = f.number ∨ ∀ x ∈ fields, x.1 ≠ k) (v : Value) :
    put m f v fields = fields.set f.number v :=
  Fields.foldl_erase_set h v

/-- Fields that stand in no choice with others are put in by their number. -/
theorem put_eq (hm : Unbound m) (hf : f ∈ m.fields) (v : Value) (fields : Fields) :
    put m f v fields = fields.set f.number v :=
  put_of_free (fun k hk => .inl (hm.alone f hf k hk)) v

end RowStream.Message
