import Mathlib
import RowStream.Proofs.Row.Alike
import RowStream.Proofs.Shape.Standalone
import RowStream.Proofs.Table.Dialects

/-!
# One wire form for all descriptors

A table has a descriptor in each of the two dialects, and from each of them one that stands alone. They
differ in labels, in how they mark packing and presence, and in the names of messages. None of this is
seen by a row that all of them take: the message of a column is alike under all four.

To stand alone changes nothing at all. The newer dialect only requires no fields, so it takes the rows
that the older one takes, and more.

* `alike_dialects`: the two dialects.
* `alike_standalone`: a descriptor and the one that stands alone.
* `one_wire_form`: the bytes of rows, and the faults.
-/

namespace RowStream.Table.Compile

open Descriptor (Dialect FieldType)
open Encoder (Corresponds FieldAlike MessageAlike)
open Shape (standalone bare inlined innerName)

variable {dialect dialect' : Dialect} {top : Scope} {es os : List Entry} {e : Entry}
  {shape shape' : Shape}

namespace Resolved

/-- What a field refers to is the message of a registered scope. -/
theorem exists_entry (h : Resolved dialect top es shape) (he : e ∈ es) {f : Pool.Field}
    (hf : f ∈ (e.resolved dialect).fields) {n : String} (hn : f.kind = .message n) :
    ∃ o ∈ es, o.scope.name = n := by
  rcases h.kind_of_mem he hf with ⟨s, hs⟩ | ⟨c, hc, hstruct, hkind⟩
  · exact absurd (hs.symm.trans hn) (by simp)
  · rw [hkind, Pool.Kind.message.injEq] at hn
    exact hn ▸ h.refers he hc hstruct

end Resolved

/-! ## The two dialects -/

/-- The name of a scope that has a message, twice. -/
def SameName (es : List Entry) (a b : String) : Prop := a = b ∧ ∃ e ∈ es, e.scope.name = a

/-- Fields of one column are alike, and only the older dialect may require them. -/
theorem fieldAlike_of_paired {scope : String} {R : String → String → Prop} {f g : Pool.Field}
    (h : Paired .proto2 .proto3 scope f g) (hrefers : ∀ n, f.kind = .message n → R n n) :
    FieldAlike False R f g := by
  obtain ⟨number, c, hf, hg⟩ := h
  obtain ⟨m, hm, hlabel⟩ := hf.label
  obtain ⟨m', hm', hlabel'⟩ := hg.label
  obtain rfl : m = m' := Option.some.inj (hm.symm.trans hm')
  have hkind : f.kind = g.kind := by
    rcases hf.kind with ⟨s, -, ht, hs⟩ | ⟨hstruct, hn⟩ <;>
      rcases hg.kind with ⟨s', -, ht', hs'⟩ | ⟨hstruct', hn'⟩
    · rw [hs, hs', FieldType.scalar.inj (Except.ok.inj (ht.symm.trans ht'))]
    · exact absurd ((eq_message_iff ht).mpr hstruct') (by simp)
    · exact absurd ((eq_message_iff ht').mpr hstruct) (by simp)
    · rw [hn, hn']
  have hrepeated : f.isRepeated = g.isRepeated := by
    rw [Pool.Field.isRepeated, Pool.Field.isRepeated, hlabel, hlabel']
    cases m <;> rfl
  constructor
  case name => rw [hf.name, hg.name]
  case number => rw [hf.number, hg.number]
  case packed => rw [hf.packed, hg.packed, hkind, hrepeated]
  case repeated => exact hrepeated
  case presence => exact hf.presence
  case presence' => exact hg.presence
  case kind =>
    rw [← hkind]
    rcases hf.kind with ⟨s, -, -, hs⟩ | ⟨-, hn⟩
    · exact hs ▸ .scalar s
    · rw [hn]
      exact .message (hrefers _ hn)
  case eased =>
    intro hrequired
    rw [hlabel'] at hrequired
    cases m <;> simp [Mode.label] at hrequired
  case kept => exact False.elim

/-- **The messages of a table are alike in both dialects**; the newer one is more lenient. -/
theorem alike_dialects (h : Resolved .proto2 top es shape) (h' : Resolved .proto3 top os shape')
    (hfiles : List.Forall₂ (Twin .proto2 .proto3) (es.map (Entry.file .proto2))
      (os.map (Entry.file .proto3))) (convertDates : Bool) :
    ∃ R, Corresponds False R ⟨shape, convertDates⟩ ⟨shape', convertDates⟩ := by
  have halike : ∀ e ∈ es, ∃ o ∈ os, o.scope.name = e.scope.name ∧
      MessageAlike False (SameName es) (e.resolved .proto2) (o.resolved .proto3) := by
    intro e he
    obtain ⟨o, ho, hname, hpaired⟩ := h.paired h' hfiles he
    refine ⟨o, ho, hname, ?_, (h.messageOf he).toUnbound, (h'.messageOf ho).toUnbound⟩
    refine (List.forall₂_and_left _ _).mpr ⟨fun f hf => hf, hpaired⟩ |>.imp fun f g hfg => ?_
    exact fieldAlike_of_paired hfg.2 fun n hn => ⟨rfl, h.exists_entry he hfg.1 hn⟩
  refine ⟨SameName es, rfl, ?_, ?_⟩
  · rintro _ _ ⟨rfl, e, he, rfl⟩
    obtain ⟨o, ho, hname, hmessage⟩ := halike e he
    exact ⟨_, _, h.find_of_mem he, hname ▸ h'.find_of_mem ho, hmessage⟩
  · obtain ⟨e, he, hscope, hmessage⟩ := h.top
    obtain ⟨e', he', hscope', hmessage'⟩ := h'.top
    obtain ⟨o, ho, hname, halike⟩ := halike e he
    have hsame : o = e' := h'.registered.eq_of_name ho he' (by rw [hname, hscope, hscope'])
    change MessageAlike False _ shape.message shape'.message
    rw [hmessage, hmessage', ← hsame]
    exact halike

/-! ## Standing alone -/

/-- The name of a message, and the name that it has in the root. -/
def Placed (root : String) (ms : List Pool.Message) (a b : String) : Prop :=
  ∃ m ∈ ms, m.fullName = a ∧ b = innerName root a

namespace Resolved

variable {ms : List Pool.Message}

/-- The fields of a message are in the order of their numbers, also in the root. -/
theorem sorted_inlined (h : Resolved dialect top es shape) (he : e ∈ es) :
    ((e.resolved dialect).fields.map (inlined top.name)).mergeSort
      (fun f g => f.number ≤ g.number) = (e.resolved dialect).fields.map (inlined top.name) := by
  have hof := h.messageOf he
  refine List.mergeSort_of_pairwise (List.pairwise_map.mpr
    (List.pairwise_iff_getElem.mpr fun i j hi hj hij => decide_eq_true ?_))
  have hnumber {i : Nat} (hi : i < (e.resolved dialect).fields.length) :
      (inlined top.name (e.resolved dialect).fields[i]).number = i + 1 := by
    have hc := List.getElem?_eq_getElem (hof.length ▸ hi)
    rw [(h.inlineOf_of_mem he (List.getElem_mem hi)).number]
    exact (hof.column i _ _ hc (List.getElem?_eq_getElem hi)).number
  rw [hnumber hi, hnumber hj]
  omega

/-- A field is alike in the root. -/
theorem fieldAlike_inlined (h : Resolved dialect top es shape) (hi : Inner dialect top es ms)
    (he : e ∈ es) {f : Pool.Field} (hf : f ∈ (e.resolved dialect).fields) :
    FieldAlike True (Placed top.name ms) f (inlined top.name f) := by
  have hin := h.inlineOf_of_mem he hf
  obtain ⟨i, c, -, hof⟩ := (h.messageOf he).of_mem hf
  have hrepeated : f.isRepeated = (inlined top.name f).isRepeated := by
    rw [Pool.Field.isRepeated, Pool.Field.isRepeated, hin.label]
  constructor
  case name => exact hin.name.symm
  case number => exact hin.number.symm
  case packed => exact hin.packed.symm
  case repeated => exact hrepeated
  case presence => exact hof.presence
  case presence' => exact hrepeated ▸ hin.presence
  case kind =>
    rw [hin.kind]
    rcases h.kind_of_mem he hf with ⟨s, hs⟩ | ⟨c, -, -, hn⟩
    · exact hs ▸ .scalar s
    · obtain ⟨m, hm, hname⟩ := hi.referred e he f hf _ hn
      rw [hn]
      exact .message ⟨m, hm, hname, rfl⟩
  case eased => exact fun hrequired => hin.label ▸ hrequired
  case kept => exact fun _ hrequired => hin.label ▸ hrequired

/-- A message is alike in the root, whatever it is called there. -/
theorem messageAlike_bare (h : Resolved dialect top es shape) (hi : Inner dialect top es ms)
    (he : e ∈ es) (scope : String) (name : Option String) (nested : List Descriptor.Message) :
    MessageAlike True (Placed top.name ms) (e.resolved dialect)
      (Pool.plainMessage .proto2 scope
        { bare top.name (e.resolved dialect) with name := name, nested := nested }) := by
  have hfields : (Pool.plainMessage .proto2 scope
      { bare top.name (e.resolved dialect) with name := name, nested := nested }).fields =
        (e.resolved dialect).fields.map (inlined top.name) := by
    rw [← h.sorted_inlined he, Pool.plainMessage, bare, List.map_map]
    rfl
  refine ⟨?_, (h.messageOf he).toUnbound, fun f hf k hk => ?_, rfl⟩
  · rw [hfields, List.forall₂_map_right_iff, List.forall₂_same]
    exact fun f hf => h.fieldAlike_inlined hi he hf
  · rw [hfields] at hf
    obtain ⟨g, hg, rfl⟩ := List.mem_map.mp hf
    rw [Pool.Message.siblings, (h.inlineOf_of_mem he hg).alone] at hk
    exact absurd hk List.not_mem_nil

/-- A message is found in the root by its place there. -/
theorem find_placed (h : Resolved dialect top es shape) (hroot : top.name ≠ "")
    (hnodup : ((Pool.treeNames "" (standalone top.name shape.message ms)).map (·.1)).Nodup)
    {m : Pool.Message} (hm : m ∈ ms) :
    (⟨Pool.plainMessages .proto2 (standalone top.name shape.message ms), []⟩ : Pool).find
      (innerName top.name m.fullName) = some (Pool.plainMessage .proto2 top.name
        { bare top.name m with name := some (Shape.flatName m.fullName) }) := by
  have hmem : Pool.plainMessage .proto2 top.name
      { bare top.name m with name := some (Shape.flatName m.fullName) } ∈
        Pool.plainMessages .proto2 (standalone top.name shape.message ms) := by
    rw [Pool.plainMessages, h.fullName_standalone]
    exact List.mem_cons_of_mem _ (List.mem_map_of_mem (List.mem_map_of_mem hm))
  rw [innerName, ← Text.qualify_of_ne hroot]
  exact Pool.find_of_mem (p := ⟨Pool.plainMessages .proto2 _, []⟩) hmem
    (Pool.nodup_plainMessages hnodup)

end Resolved

/-- **To stand alone changes nothing**: the messages of a table are alike in its root. -/
theorem alike_standalone {ms : List Pool.Message} {t : Shape} (h : Resolved dialect top es shape)
    (hi : Resolved.Inner dialect top es ms)
    (ht : Shape.ofDescriptor (standalone top.name shape.message ms) = .ok t)
    (convertDates : Bool) : ∃ R, Corresponds True R ⟨shape, convertDates⟩ ⟨t, convertDates⟩ := by
  have hroot := ((h.standsAlone_iff hi).mp ⟨t, ht⟩).2
  obtain ⟨hnodup, -, rfl⟩ :=
    (Shape.ofDescriptor_eq_ok (h.simple_standalone hi) h.undotted_standalone).mp ht
  obtain ⟨e₀, he₀, -, hmessage⟩ := h.top
  refine ⟨Placed top.name ms, rfl, ?_, ?_⟩
  · rintro _ _ ⟨m, hm, rfl, rfl⟩
    obtain ⟨e, he, rfl, -⟩ := hi.of_mem m hm
    exact ⟨_, _, h.find_of_mem he, h.find_placed (hroot (List.ne_nil_of_mem hm)) hnodup hm,
      h.messageAlike_bare hi he top.name _ _⟩
  · change MessageAlike True _ shape.message _
    rw [hmessage]
    exact h.messageAlike_bare hi he₀ "" _ _

end RowStream.Table.Compile

namespace RowStream.Encoder

open Descriptor (Dialect)

variable {s : Table.Schema} {scope : String} {dialect : Dialect}

/-- The shape of a table and the one that stands alone are alike. -/
theorem corresponds_of_writerDescriptor {shape t : Shape} {d : Descriptor.Message}
    (h : Shape.ofTable s scope dialect = .ok shape)
    (hd : Shape.writerDescriptor s scope dialect = .ok d) (ht : Shape.ofDescriptor d = .ok t)
    (convertDates : Bool) : ∃ R, Corresponds True R ⟨shape, convertDates⟩ ⟨t, convertDates⟩ := by
  obtain ⟨es, hfiles, hr⟩ := Table.Compile.resolved_of_ofTable h
  obtain ⟨ms, hi, hinline⟩ := hr.inline_eq hfiles
  rw [Shape.writerDescriptor, h] at hd
  obtain rfl := Except.ok.inj (hinline.symm.trans hd)
  exact Table.Compile.alike_standalone hr hi ht convertDates

/-- The shapes of a table in the two dialects are alike. -/
theorem corresponds_of_dialects {shape shape' : Shape}
    (h : Shape.ofTable s scope .proto2 = .ok shape)
    (h' : Shape.ofTable s scope .proto3 = .ok shape') (convertDates : Bool) :
    ∃ R, Corresponds False R ⟨shape, convertDates⟩ ⟨shape', convertDates⟩ := by
  obtain ⟨es, hfiles, hr⟩ := Table.Compile.resolved_of_ofTable h
  obtain ⟨os, hfiles', hr'⟩ := Table.Compile.resolved_of_ofTable h'
  exact Table.Compile.alike_dialects hr hr' (Table.Compile.twin_of_files hfiles hfiles') convertDates

/-- **One wire form.** Let `p₂` and `p₃` be the shapes of a table in the two dialects, and `n₂` and `n₃`
those that stand alone. Rows that the older dialect takes become the same bytes under all four; rows
that it refuses are refused when it stands alone, at the same row and path for the same reason, and the
other way round. -/
theorem one_wire_form {p₂ p₃ n₂ n₃ : Shape} {d₂ d₃ : Descriptor.Message}
    (h₂ : Shape.ofTable s scope .proto2 = .ok p₂) (h₃ : Shape.ofTable s scope .proto3 = .ok p₃)
    (hd₂ : Shape.writerDescriptor s scope .proto2 = .ok d₂)
    (hd₃ : Shape.writerDescriptor s scope .proto3 = .ok d₃)
    (hn₂ : Shape.ofDescriptor d₂ = .ok n₂) (hn₃ : Shape.ofDescriptor d₃ = .ok n₃)
    (convertDates : Bool) (rows : List Row) :
    (∀ bytes, encode ⟨p₂, convertDates⟩ rows = .ok bytes →
      ∀ t ∈ [p₃, n₂, n₃], encode ⟨t, convertDates⟩ rows = .ok bytes) ∧
    (∀ e, encode ⟨p₂, convertDates⟩ rows = .error e → ∃ e',
      encode ⟨n₂, convertDates⟩ rows = .error e' ∧ e.row = e'.row ∧ e.fault.Alike e'.fault) ∧
    (∀ e', encode ⟨n₂, convertDates⟩ rows = .error e' → ∃ e,
      encode ⟨p₂, convertDates⟩ rows = .error e ∧ e.row = e'.row ∧ e.fault.Alike e'.fault) := by
  obtain ⟨_, hdialects⟩ := corresponds_of_dialects h₂ h₃ convertDates
  obtain ⟨_, halone₂⟩ := corresponds_of_writerDescriptor h₂ hd₂ hn₂ convertDates
  obtain ⟨_, halone₃⟩ := corresponds_of_writerDescriptor h₃ hd₃ hn₃ convertDates
  have h₂₃ := encode_meets hdialects rows
  have hkept₂ := encode_meets halone₂ rows
  have hkept₃ := encode_meets halone₃ rows
  refine ⟨fun bytes hok t ht => ?_, hkept₂.2 trivial, fun e' herr => ?_⟩
  · simp only [List.mem_cons, List.not_mem_nil, or_false] at ht
    rcases ht with rfl | rfl | rfl
    · exact h₂₃.1 bytes hok
    · exact hkept₂.1 bytes hok
    · exact hkept₃.1 bytes (h₂₃.1 bytes hok)
  · cases hp : encode ⟨p₂, convertDates⟩ rows with
    | ok bytes => exact absurd ((hkept₂.1 bytes hp).symm.trans herr) (by simp)
    | error e =>
      obtain ⟨e₁, herr₁, halike⟩ := hkept₂.2 trivial e hp
      obtain rfl : e₁ = e' := Except.error.inj (herr₁.symm.trans herr)
      exact ⟨e, rfl, halike⟩

/-- A list of STRUCT values with a required field. -/
theorem one_wire_form_nested :
    let s : Table.Schema := ⟨[{ name := "n", type := 2, mode := 3 },
      { name := "a", type := 4, mode := 3, columns := [{ name := "x", type := 2, mode := 2 }] }]⟩
    let rows : List Row := [[("a", .list [.struct [("x", .int 1)]]), ("n", .list [.int 2])]]
    let bytes : List (List UInt8) := [[10, 1, 2, 18, 2, 8, 1]]
    ∃ p₂ p₃ d₂ d₃ n₂ n₃, Shape.ofTable s "root" .proto2 = .ok p₂ ∧
      Shape.ofTable s "root" .proto3 = .ok p₃ ∧ Shape.writerDescriptor s "root" .proto2 = .ok d₂ ∧
      Shape.writerDescriptor s "root" .proto3 = .ok d₃ ∧ Shape.ofDescriptor d₂ = .ok n₂ ∧
      Shape.ofDescriptor d₃ = .ok n₃ ∧
      ∀ t ∈ [p₂, p₃, n₂, n₃], encode ⟨t, false⟩ rows = .ok bytes := by
  intro s rows bytes
  have hp₃ : (Shape.ofTable s "root" .proto3).isOk = true := by cbv
  have ht₂ : (Shape.writerDescriptor s "root" .proto2 >>= Shape.ofDescriptor).isOk = true := by cbv
  have ht₃ : (Shape.writerDescriptor s "root" .proto3 >>= Shape.ofDescriptor).isOk = true := by cbv
  have hrow : ((Shape.ofTable s "root" .proto2).toOption.bind fun t =>
      (encode ⟨t, false⟩ rows).toOption) = some bytes := by cbv
  obtain ⟨p₂, h₂, hbytes⟩ := Option.bind_eq_some_iff.mp hrow
  rw [toOption_eq_some] at h₂ hbytes
  obtain ⟨p₃, h₃⟩ := isOk_iff.mp hp₃
  obtain ⟨n₂, hn₂⟩ := isOk_iff.mp ht₂
  obtain ⟨n₃, hn₃⟩ := isOk_iff.mp ht₃
  obtain ⟨d₂, hd₂, hn₂⟩ := bind_eq_ok.mp hn₂
  obtain ⟨d₃, hd₃, hn₃⟩ := bind_eq_ok.mp hn₃
  exact ⟨p₂, p₃, d₂, d₃, n₂, n₃, h₂, h₃, hd₂, hd₃, hn₂, hn₃,
    List.forall_mem_cons.mpr ⟨hbytes, (one_wire_form h₂ h₃ hd₂ hd₃ hn₂ hn₃ false rows).1 bytes hbytes⟩⟩

end RowStream.Encoder
