import RowStream.Proofs.Keyed
import RowStream.Row.Json

/-!
# Rows give each column once

A row is kept in order of its columns, so none comes twice: to put a value under a key replaces the one
that is there. This holds of every row that is read from JSON, and of those inside (`Distinct`), however
often an object repeats a key.

* `distinct_of_ofJson?`: rows from JSON.
-/

namespace RowStream

namespace Row

mutual

/-- No row in the value gives a column twice. -/
def Value.Distinct : Value → Prop
  | .list vs => ItemsDistinct vs
  | .struct columns => (columns.map (·.1)).Nodup ∧ ColumnsDistinct columns
  | _ => True

/-- No row in the items of a list gives a column twice. -/
def ItemsDistinct : List Value → Prop
  | [] => True
  | v :: vs => v.Distinct ∧ ItemsDistinct vs

/-- No row in the values of columns gives a column twice. -/
def ColumnsDistinct : List (String × Value) → Prop
  | [] => True
  | (_, v) :: columns => v.Distinct ∧ ColumnsDistinct columns

end

theorem columnsDistinct_iff {columns : List (String × Value)} :
    ColumnsDistinct columns ↔ ∀ c ∈ columns, c.2.Distinct := by
  induction columns with
  | nil => simp [ColumnsDistinct]
  | cons c columns ih => rw [ColumnsDistinct, ih, List.forall_mem_cons]

mutual

/-- A value that is read from JSON. -/
theorem distinct_ofJson : ∀ j : Json, (Value.ofJson j).Distinct
  | .null | .bool _ | .string _ | .number (.real _) => by
    simp only [Value.ofJson]
    trivial
  | .number (.int n) => by
    simp only [Value.ofJson]
    split <;> trivial
  | .array items => by
    simp only [Value.ofJson, Value.Distinct]
    exact itemsDistinct_ofJson items
  | .object members => by
    simp only [Value.ofJson, Value.Distinct]
    refine ⟨(Keyed.ordered_ofList _).nodup, columnsDistinct_iff.mpr fun c hc => ?_⟩
    exact columnsDistinct_iff.mp (columnsDistinct_ofJson members) c (Keyed.mem_of_mem_ofList hc)

theorem itemsDistinct_ofJson : ∀ items : List Json, ItemsDistinct (itemsOfJson items)
  | [] => by
    simp only [itemsOfJson]
    trivial
  | j :: items => by
    simp only [itemsOfJson]
    exact ⟨distinct_ofJson j, itemsDistinct_ofJson items⟩

theorem columnsDistinct_ofJson :
    ∀ members : List (String × Json), ColumnsDistinct (columnsOfJson members)
  | [] => by
    simp only [columnsOfJson]
    trivial
  | (_, j) :: members => by
    simp only [columnsOfJson]
    exact ⟨distinct_ofJson j, columnsDistinct_ofJson members⟩

end

/-- **Rows from JSON** give no column twice, at any depth. -/
theorem distinct_of_ofJson? {j : Json} {row : Row} (h : ofJson? j = some row) :
    Value.Distinct (.struct row) := by
  have hdistinct := distinct_ofJson j
  unfold ofJson? at h
  split at h
  · rename_i columns hcolumns
    obtain rfl := Option.some.inj h
    rwa [hcolumns] at hdistinct
  · exact nomatch h

end Row

end RowStream
