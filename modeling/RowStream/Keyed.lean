/-!
# Values by key

Lists of values under text keys, in order of the keys and each key once. Keys are ordered by their
characters, which is the order of their UTF-8 bytes.

* `get?`: the value under a key.
* `put`: another value under a key.
* `ofList`: the later of two with one key.

Out of scope: removing a key, which nothing here does.
-/

namespace RowStream

/-- Values by key, in order of the keys. -/
abbrev Keyed (α : Type) := List (String × α)

namespace Keyed

variable {α : Type}

/-- The value under a key. -/
def get? (m : List (String × α)) (key : String) : Option α :=
  (m.find? fun e => e.1 == key).map (·.2)

/-- Puts a value under a key, in place of one that is there. -/
def put (key : String) (a : α) : List (String × α) → List (String × α)
  | [] => [(key, a)]
  | (k, b) :: m =>
    if key < k then (key, a) :: (k, b) :: m
    else if key = k then (key, a) :: m
    else (k, b) :: put key a m

/-- The values under keys in any order; of two under one key the later counts. -/
def ofList (entries : List (String × α)) : List (String × α) :=
  entries.foldl (fun m e => put e.1 e.2 m) []

end Keyed

end RowStream
