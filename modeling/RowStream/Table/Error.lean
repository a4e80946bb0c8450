/-!
# Faults of table schemas

* `Unsupported`: a column, and the type or mode that is its fault.
-/

namespace RowStream.Table

/-- A column that cannot be compiled, or whose type or mode has no such name. -/
inductive Unsupported where
  | type (column given : String)
  | mode (column given : String)
deriving Repr, DecidableEq

/-- What is said of the column. -/
def Unsupported.message : Unsupported → String
  | .type column given => "unsupported type " ++ given ++ " for field " ++ column
  | .mode column given => "unsupported mode " ++ given ++ " for field " ++ column

end RowStream.Table
