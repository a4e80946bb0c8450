import RowStream.Proofs.Wire.Message
import RowStream.Table.Wire

/-!
# Table schemas survive as records

A schema is read back from its records, and so is a column with all the columns in it. What a column
leaves out is not written, except for its timestamp precision: that is written whenever it is there,
also where it is zero.

* `Column.builds_of_nested`: a column with the columns nested in it.
-/

namespace RowStream.Table

open Wire Faithful Takes

mutual

/-- How many levels of columns nest in a column. -/
def Column.levels : Column → Nat
  | ⟨_, _, _, columns, _, _, _, _, _, _⟩ => columnLevels columns

/-- How many levels a list of columns makes in the column around it. -/
def columnLevels : List Column → Nat
  | [] => 0
  | c :: cs => max (c.levels + 1) (columnLevels cs)

end

theorem columnLevels_eq (cs : List Column) : columnLevels cs = below Column.levels cs := by
  induction cs with
  | nil => rfl
  | cons c cs ih => rw [columnLevels, below, ih]

theorem columnRecords_eq (number : Nat) (cs : List Column) :
    columnRecords number cs = repeated number messagePayload cs := by
  induction cs with
  | nil => rfl
  | cons c cs ih => rw [columnRecords, ih]; rfl

namespace Column

variable {depth : Nat} {c : Column}

theorem absorb_columns (c : Column) (p : Payload) : absorb depth c (4, p) =
    (nested depth Message.empty p).map fun d => { c with columns := c.columns ++ [d] } := by
  cases p <;> cases depth <;> rfl

/-- **A column is built from its records**, if those in it are read back. -/
theorem builds_of_nested (h : ∀ d ∈ c.columns,
    Says (nested depth Message.empty) (messagePayload d) d (d.levels < depth)) :
    Builds levels depth c := by
  obtain ⟨name, type, mode, columns, description, maxLength, precision, scale, expression, digits⟩ := c
  change Takes (absorb depth) {} (records _) _ _
  simp only [records, columnRecords_eq, List.append_assoc, levels, columnLevels_eq]
  -- to take a record is a recursion on the levels, which unfolds once these are 0 or one more
  cases depth
  all_goals
    refine step (.text fun c s => { c with name := s }) ?_
    refine step (.int32 fun c n => { c with type := n }) ?_
    refine step (.int32 fun c n => { c with mode := n }) ?_
    refine close (.of_eq (.repeated_of (fun c cs => { c with columns := cs }) h (by decide)
      (fun cs p => absorb_columns _ p) rfl) rfl below_le.symm) ?_
    refine step (.text fun c s => { c with description := s }) ?_
    refine step (.int64 fun c n => { c with maxLength := n }) ?_
    refine step (.int64 fun c n => { c with precision := n }) ?_
    refine step (.int64 fun c n => { c with scale := n }) ?_
    refine step (.text fun c s => { c with defaultValueExpression := s }) ?_
    exact finish (.optional (fun c n => { c with timestampPrecision := n }) says_int64)

end Column

instance : Faithful Column where
  levels := Column.levels
  builds := builds_of_inner (fun _ => rfl) Column.builds_of_nested

instance : Faithful Schema where
  levels s := below levels s.columns
  builds depth s := by
    change Takes (Schema.absorb depth) {} (columnRecords 1 s.columns) s _
    rw [columnRecords_eq]
    exact finish (.messages fun s cs => { s with columns := cs })

end RowStream.Table
