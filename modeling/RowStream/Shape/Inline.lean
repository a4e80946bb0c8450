import RowStream.Shape.Basic

/-!
# Descriptors that stand alone

A request carries one descriptor, so every message and enum that the rows refer to is put into it.
The definitions are collected field by field, each message before those it refers to itself, and
lie side by side in the root, named by their full names with underscores for the dots. Choices that
only mark presence are dropped, packing is spelled out, and references lead to the inlined
definitions. A message that refers back to one it lies in cannot be inlined.

* `collect`: the messages and enums that fields refer to.
* `inlineField`, `inlineMessage`: a field and a message inside the root.
* `inline`: the descriptor that stands alone.
* `writerDescriptor`: that of a table.

Out of scope: what extensions refer to: they stay in a message as they are, and nothing follows
them.
-/

namespace RowStream.Shape

open Pool (Field Message Enum)

/-- What the fields of the root refer to, in the order in which it was found. -/
structure Collected where
  messages : List Message := []
  enums : List Enum := []
deriving Repr

/-- The message was found before. -/
def Collected.hasMessage (c : Collected) (name : String) : Bool :=
  c.messages.any fun m => m.fullName == name

/-- The enum was found before. -/
def Collected.hasEnum (c : Collected) (name : String) : Bool :=
  c.enums.any fun e => e.fullName == name

/-- Adds a message behind those found before. -/
def Collected.addMessage (c : Collected) (m : Message) : Collected :=
  { c with messages := c.messages ++ [m] }

/-- Adds an enum behind those found before. -/
def Collected.addEnum (c : Collected) (e : Enum) : Collected :=
  { c with enums := c.enums ++ [e] }

/-- How many messages of the pool do not lie on the path. -/
def unvisited (p : Pool) (path : List String) : Nat :=
  p.messages.countP fun m => !path.contains m.fullName

/-- A name of the pool that was not on the path leaves fewer names to visit. -/
theorem unvisited_cons_lt {p : Pool} {path : List String} {name : String} {m : Message}
    (found : p.find name = some m) (fresh : path.contains name = false) :
    unvisited p (name :: path) < unvisited p path := by
  have mem : m ∈ p.messages := List.mem_of_find?_eq_some found
  have named : (m.fullName == name) = true := by
    have := List.find?_some found
    simpa using this
  have named : m.fullName = name := eq_of_beq named
  unfold unvisited
  have le : ∀ ms : List Message,
      ms.countP (fun m => !(name :: path).contains m.fullName) ≤
        ms.countP (fun m => !path.contains m.fullName) := fun ms =>
    List.countP_mono_left fun n _ h => by
      simp only [List.contains_cons, Bool.not_or, Bool.and_eq_true] at h
      exact h.2
  obtain ⟨before, after, split⟩ := List.append_of_mem mem
  rw [split]
  simp only [List.countP_append, List.countP_cons]
  have old : (!path.contains m.fullName) = true := by rw [named, fresh]; rfl
  have new : (!(name :: path).contains m.fullName) = false := by simp [named]
  rw [old, new]
  have := le before
  have := le after
  simp only [if_true, Bool.false_eq_true, if_false]
  omega

/-- Collects what the fields refer to. `path` holds the messages that they lie in; the error is the
message on it that a field refers back to. -/
def collect (p : Pool) (path : List String) (fields : List Field) (c : Collected) :
    Except String Collected :=
  match fields with
  | [] => .ok c
  | f :: fs =>
    match f.kind with
    | .scalar _ => collect p path fs c
    | .enum name =>
      if c.hasEnum name then collect p path fs c
      else
        match p.enum? name with
        | some e => collect p path fs (c.addEnum e)
        | none => collect p path fs c
    | .message name | .group name =>
      if _fresh : path.contains name then .error name
      else if c.hasMessage name then collect p path fs c
      else
        match _found : p.find name with
        | some m =>
          match collect p (name :: path) m.fields (c.addMessage m) with
          | .ok c => collect p path fs c
          | .error e => .error e
        | none => collect p path fs c
termination_by (unvisited p path, fields.length)
decreasing_by
  all_goals simp_wf
  all_goals first
    | exact Prod.Lex.right _ (Nat.lt_succ_self _)
    | exact Prod.Lex.left _ _ (unvisited_cons_lt _found (by simpa using _fresh))

/-- The name of an inlined definition. -/
def flatName (fullName : String) : String := Text.underscored fullName

/-- The fields of the message that belong to its choice with the index. -/
def membersOf (m : Message) (index : Nat) : List Field :=
  m.fields.filter fun f => f.oneof == some index

/-- The choice only marks whether its one field is set. -/
def isPresenceMark (m : Message) (index : Nat) : Bool :=
  match membersOf m index with
  | [f] => f.descriptor.proto3Optional.getD false
  | _ => false

/-- The choices of the message that are real ones, by index. -/
def realOneofs (m : Message) : List Nat :=
  (List.range m.descriptor.oneofs.length).filter fun i => !isPresenceMark m i

/-- The descriptor of a field inside the root. -/
def inlineField (root : String) (real : List Nat) (f : Field) : Descriptor.Field :=
  { f.descriptor with
    proto3Optional := none
    oneofIndex := f.oneof.bind fun i => (real.idxOf? i).map Int32.ofNat
    typeName :=
      match f.kind with
      | .scalar _ => f.descriptor.typeName
      | .message name | .group name | .enum name => some ("." ++ root ++ "." ++ flatName name)
    options :=
      if f.packed then some { f.descriptor.options.getD {} with packed := some true }
      else f.descriptor.options }

/-- The descriptor of a message inside the root, without definitions of its own. -/
def inlineMessage (root : String) (m : Message) : Descriptor.Message :=
  let real := realOneofs m
  { m.descriptor with
    fields := m.fields.map (inlineField root real)
    nested := []
    enums := []
    oneofs := real.filterMap fun i => m.descriptor.oneofs[i]? }

/-- The descriptor of the shape that stands alone. -/
def inline (s : Shape) : Except Error Descriptor.Message :=
  match collect s.pool [s.message.fullName] s.message.fields {} with
  | .error name => .error (.recursive name)
  | .ok c =>
    let root := s.message.name
    .ok { inlineMessage root s.message with
      nested := c.messages.map fun m =>
        { inlineMessage root m with name := some (flatName m.fullName) }
      enums := c.enums.map fun e => { e.descriptor with name := some (flatName e.fullName) } }

/-- The descriptor that stands alone for the rows of a table. -/
def writerDescriptor (s : Table.Schema) (scope : String) (dialect : Descriptor.Dialect) :
    Except Error Descriptor.Message :=
  match ofTable s scope dialect with
  | .ok shape => shape.inline
  | .error e => .error e

end RowStream.Shape
