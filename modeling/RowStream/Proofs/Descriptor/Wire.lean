import RowStream.Descriptor.Wire
import RowStream.Proofs.Wire.Message

/-!
# Descriptors survive as records

Every part of a descriptor is read back from its records: options with those that stay as they were
written, fields, enums, choices, and messages with all that lies in them and all that they set aside.
Members of a descriptor that are set are written even when they hold their default, so an empty set of
options is not lost.

* `Message.builds_of_nested`: a message with the messages nested in it.
-/

namespace RowStream.Descriptor

open Wire Faithful Takes

/-! ## Options and ranges -/

instance : Faithful NamePart where
  builds depth n := by
    change Takes (NamePart.absorb depth) {} n.records n _
    rw [NamePart.records]
    refine of_zero ?_
    refine step (.required (fun n s => { n with text := s }) (says_text _)) ?_
    exact finish (.required (fun n b => { n with isExtension := b }) (says_bool _))

instance : Faithful UninterpretedOption where
  levels o := below levels o.name
  builds depth o := by
    change Takes (UninterpretedOption.absorb depth) {} o.records o _
    simp only [UninterpretedOption.records, List.append_assoc]
    refine close (.messages fun o ns => { o with name := ns }) ?_
    refine step (.optional (fun o s => { o with identifier := s }) says_text) ?_
    refine step (.optional (fun o n => { o with positive := n }) says_nat64) ?_
    refine step (.optional (fun o n => { o with negative := n }) says_int64) ?_
    refine step (.optional (fun o x => { o with double := x }) says_double) ?_
    refine step (.optional (fun o b => { o with string := b }) says_bytes) ?_
    exact finish (.optional (fun o s => { o with aggregate := s }) says_text)

instance : Faithful FieldOptions where
  levels o := below levels o.others
  builds depth o := by
    change Takes (FieldOptions.absorb depth) {} o.records o _
    simp only [FieldOptions.records, List.append_assoc]
    refine step (.optional (fun o n => { o with stringForm := n }) says_int32) ?_
    refine step (.optional (fun o b => { o with packed := b }) says_bool) ?_
    refine step (.optional (fun o b => { o with isDeprecated := b }) says_bool) ?_
    refine step (.optional (fun o b => { o with isLazy := b }) says_bool) ?_
    refine step (.optional (fun o n => { o with integerForm := n }) says_int32) ?_
    refine step (.optional (fun o b => { o with isWeak := b }) says_bool) ?_
    exact finish (.messages fun o xs => { o with others := xs })

instance : Faithful MessageOptions where
  levels o := below levels o.others
  builds depth o := by
    change Takes (MessageOptions.absorb depth) {} o.records o _
    simp only [MessageOptions.records, List.append_assoc]
    refine step (.optional (fun o b => { o with isMessageSet := b }) says_bool) ?_
    refine step (.optional (fun o b => { o with hidesAccessor := b }) says_bool) ?_
    refine step (.optional (fun o b => { o with isDeprecated := b }) says_bool) ?_
    refine step (.optional (fun o b => { o with mapEntry := b }) says_bool) ?_
    exact finish (.messages fun o xs => { o with others := xs })

instance : Faithful EnumOptions where
  levels o := below levels o.others
  builds depth o := by
    change Takes (EnumOptions.absorb depth) {} o.records o _
    simp only [EnumOptions.records, List.append_assoc]
    refine step (.optional (fun o b => { o with allowsAlias := b }) says_bool) ?_
    refine step (.optional (fun o b => { o with isDeprecated := b }) says_bool) ?_
    exact finish (.messages fun o xs => { o with others := xs })

instance : Faithful EnumValueOptions where
  levels o := below levels o.others
  builds depth o := by
    change Takes (EnumValueOptions.absorb depth) {} o.records o _
    rw [EnumValueOptions.records]
    refine step (.optional (fun o b => { o with isDeprecated := b }) says_bool) ?_
    exact finish (.messages fun o xs => { o with others := xs })

instance : Faithful PlainOptions where
  levels o := below levels o.others
  builds _ _ := .of_eq (.messages fun o xs => { o with others := xs }) rfl (by simp)

instance : Faithful NumberRange where
  builds depth r := by
    change Takes (NumberRange.absorb depth) {} r.records r _
    rw [NumberRange.records]
    refine of_zero ?_
    refine step (.optional (fun r n => { r with start := n }) says_int32) ?_
    exact finish (.optional (fun r n => { r with stop := n }) says_int32)

instance : Faithful ExtensionRange where
  levels r := below levels r.options.toList
  builds depth r := by
    change Takes (ExtensionRange.absorb depth) {} r.records r _
    simp only [ExtensionRange.records, List.append_assoc]
    refine step (.optional (fun r n => { r with start := n }) says_int32) ?_
    refine step (.optional (fun r n => { r with stop := n }) says_int32) ?_
    exact finish (.message fun r o => { r with options := o })

/-! ## Fields, enums and choices -/

instance : Faithful Field where
  levels f := below levels f.options.toList
  builds depth f := by
    change Takes (Field.absorb depth) {} f.records f _
    simp only [Field.records, List.append_assoc]
    refine step (.optional (fun f s => { f with name := s }) says_text) ?_
    refine step (.optional (fun f s => { f with extendee := s }) says_text) ?_
    refine step (.optional (fun f n => { f with number := n }) says_int32) ?_
    refine step (.optional (fun f n => { f with label := n }) says_int32) ?_
    refine step (.optional (fun f n => { f with type := n }) says_int32) ?_
    refine step (.optional (fun f s => { f with typeName := s }) says_text) ?_
    refine step (.optional (fun f s => { f with defaultValue := s }) says_text) ?_
    refine close (.message fun f o => { f with options := o }) ?_
    refine step (.optional (fun f n => { f with oneofIndex := n }) says_int32) ?_
    refine step (.optional (fun f s => { f with jsonName := s }) says_text) ?_
    exact finish (.optional (fun f b => { f with proto3Optional := b }) says_bool)

instance : Faithful EnumValue where
  levels v := below levels v.options.toList
  builds depth v := by
    change Takes (EnumValue.absorb depth) {} v.records v _
    simp only [EnumValue.records, List.append_assoc]
    refine step (.optional (fun v s => { v with name := s }) says_text) ?_
    refine step (.optional (fun v n => { v with number := n }) says_int32) ?_
    exact finish (.message fun v o => { v with options := o })

instance : Faithful Enum where
  levels e := max (below levels e.values) (max (below levels e.options.toList)
    (below levels e.reservedRanges))
  builds depth e := by
    change Takes (Enum.absorb depth) {} e.records e _
    simp only [Enum.records, List.append_assoc, Nat.max_le]
    refine step (.optional (fun e s => { e with name := s }) says_text) ?_
    refine append (.messages fun e vs => { e with values := vs }) ?_
    refine append (.message fun e o => { e with options := o }) ?_
    refine close (.messages fun e rs => { e with reservedRanges := rs }) ?_
    exact finish (.repeated (fun e ss => { e with reservedNames := ss }) says_text)

instance : Faithful Oneof where
  levels o := below levels o.options.toList
  builds depth o := by
    change Takes (Oneof.absorb depth) {} o.records o _
    rw [Oneof.records]
    refine step (.optional (fun o s => { o with name := s }) says_text) ?_
    exact finish (.message fun o x => { o with options := x })

/-! ## Messages -/

mutual

/-- How many levels nest in a message. -/
def Message.levels : Message → Nat
  | ⟨_, fields, nested, enums, options, oneofs, reserve⟩ =>
    max (below Faithful.levels fields) (max (nestedLevels nested) (max (below Faithful.levels enums)
      (max (below Faithful.levels reserve.extensionRanges)
        (max (below Faithful.levels reserve.extensions) (max (below Faithful.levels options.toList)
          (max (below Faithful.levels oneofs) (below Faithful.levels reserve.ranges)))))))

/-- How many levels a list of messages makes in the message around it. -/
def nestedLevels : List Message → Nat
  | [] => 0
  | m :: ms => max (m.levels + 1) (nestedLevels ms)

end

theorem nestedLevels_eq (ms : List Message) : nestedLevels ms = below Message.levels ms := by
  induction ms with
  | nil => rfl
  | cons m ms ih => rw [nestedLevels, below, ih]

theorem nestedRecords_eq (ms : List Message) : nestedRecords ms = repeated 3 messagePayload ms := by
  induction ms with
  | nil => rfl
  | cons m ms ih => rw [nestedRecords, ih]; rfl

namespace Message

variable {depth : Nat} {m : Message}

theorem absorb_nested (m : Message) (p : Payload) : absorb depth m (3, p) =
    (Wire.nested depth Message.empty p).map fun n => { m with nested := m.nested ++ [n] } := by
  cases p <;> cases depth <;> rfl

/-- What a message sets aside is taken as by itself. -/
theorem absorb_reserve {k : Nat} (hk : k = 5 ∨ k = 6 ∨ k = 9 ∨ k = 10) (m : Message) (p : Payload) :
    absorb depth m (k, p) = (m.reserve.absorb depth (k, p)).map fun r => { m with reserve := r } := by
  rcases hk with rfl | rfl | rfl | rfl <;> cases depth <;> rfl

/-- A message that sets something more aside. -/
theorem absorb_setAside {k : Nat} (hk : k = 5 ∨ k = 6 ∨ k = 9 ∨ k = 10) {β : Type} (m : Message)
    {p : Payload} {x : Option β} {set : β → Reserve}
    (h : m.reserve.absorb depth (k, p) = x.map set) :
    absorb depth m (k, p) = x.map fun y => { m with reserve := set y } := by
  rw [absorb_reserve hk, h, Option.map_map]
  rfl

/-- **A message is built from its records**, if those nested in it are read back. -/
theorem builds_of_nested (h : ∀ n ∈ m.nested,
    Says (Wire.nested depth Message.empty) (messagePayload n) n (n.levels < depth)) :
    Builds levels depth m := by
  obtain ⟨name, fields, nested, enums, options, oneofs, reserve⟩ := m
  change Takes (absorb depth) {} (records _) _ _
  simp only [records, nestedRecords_eq, List.append_assoc, levels, nestedLevels_eq, Nat.max_le]
  -- to take a record is a recursion on the levels, which unfolds once these are 0 or one more
  cases depth
  all_goals
    refine step (.optional (fun m s => { m with name := s }) says_text) ?_
    refine append (.messages fun m fs => { m with fields := fs }) ?_
    refine append (.of_eq (.repeated_of (fun m ns => { m with nested := ns }) h (by decide)
      (fun ns p => absorb_nested _ p) rfl) rfl below_le.symm) ?_
    refine append (.messages fun m es => { m with enums := es }) ?_
    refine append (.messages (fun m xs => { m with reserve := { m.reserve with extensionRanges := xs } })
      (by decide) fun xs p => absorb_setAside (.inl rfl) _ rfl) ?_
    refine append (.messages (fun m xs => { m with reserve := { m.reserve with extensions := xs } })
      (by decide) fun xs p => absorb_setAside (.inr (.inl rfl)) _ rfl) ?_
    refine append (.message fun m o => { m with options := o }) ?_
    refine append (.messages fun m os => { m with oneofs := os }) ?_
    refine close (.messages (fun m xs => { m with reserve := { m.reserve with ranges := xs } })
      (by decide) fun xs p => absorb_setAside (.inr (.inr (.inl rfl))) _ rfl) ?_
    exact finish (.repeated (fun m ss => { m with reserve := { m.reserve with names := ss } })
      says_text (by decide) fun ss p => absorb_setAside (.inr (.inr (.inr rfl))) _ rfl)

end Message

instance : Faithful Message where
  levels := Message.levels
  builds := builds_of_inner (fun _ => rfl) Message.builds_of_nested

end RowStream.Descriptor
