import Mathlib.Logic.Relation
import RowStream.Proofs.Pool.Defined

/-!
# Every pool is linked

Whatever files a pool comes from, its messages have names of their own and so do its enums, and the type
of a field is a scalar, or a message or an enum of the pool (`Linked`).

The pool has the names that the first pass over the files took (`NamedBy`), and a field gets its type from
one of the definitions of this pass (`typed_of_field`).

What the fields of a message hold is what it refers to (`Refers`), and references lead on from there
(`Leads`, `Descends`).

* `linked_of_ofFiles`: pools of files.
-/

namespace RowStream.Pool

/-- Names stand for one message or enum each, and fields refer to those of the pool. -/
structure Linked (p : Pool) : Prop where
  messages : (p.messages.map (·.fullName)).Nodup
  enums : (p.enums.map (·.fullName)).Nodup
  refers : ∀ m ∈ p.messages, ∀ f ∈ m.fields, ∀ n, f.kind.message? = some n →
    ∃ o ∈ p.messages, o.fullName = n
  uses : ∀ m ∈ p.messages, ∀ f ∈ m.fields, ∀ n, f.kind = .enum n → ∃ e ∈ p.enums, e.fullName = n

variable {names : Names} {imported : List String} {s : Scope}

/-! ## The types of fields -/

/-- The definition is that of a message or of an enum. -/
structure IsType (names : Names) (d : Definition) : Prop where
  mem : d ∈ names
  role : d.role = .message ∨ d.role = .enum

variable {n : String} {d : Definition}

theorem isType_of_candidate (h : names.candidate imported n = .found d) : IsType names d := by
  unfold Names.candidate at h
  split at h
  · simp at h
  · rename_i e hfind
    split_ifs at h with himported hrole
    obtain rfl := Lookup.found.inj h
    exact ⟨(find_eq_some hfind).1, hrole⟩

theorem result_eq_ok {l : Lookup} : l.result n = .ok d ↔ l = .found d := by
  cases l <;> simp [Lookup.result]

/-- The innermost scopes first: what is found at last is a type. -/
theorem isType_of_simple {scopes : List String} {first : Lookup}
    (hfirst : ∀ e, first = .found e → IsType names e)
    (h : names.simple imported n first scopes = .found d) : IsType names d := by
  induction scopes generalizing first with
  | nil => exact hfirst d h
  | cons scope scopes ih =>
    unfold Names.simple at h
    split at h
    · rename_i e hfound
      obtain rfl := Lookup.found.inj h
      exact isType_of_candidate hfound
    · rename_i other hother
      split at h
      · exact ih (fun e he => absurd he (hother e)) h
      · exact ih hfirst h

theorem isType_of_dotted {head : String} {scopes : List String}
    (h : names.dotted imported n head scopes = .ok d) : IsType names d := by
  induction scopes with
  | nil => simp [Names.dotted] at h
  | cons scope scopes ih =>
    unfold Names.dotted at h
    split at h
    · split_ifs at h
      · split at h
        · simp at h
        · exact isType_of_candidate (result_eq_ok.mp h)
      · exact ih h
    · exact ih h

/-- **A type name means a message or an enum**, if it means anything. -/
theorem isType_of_resolve {scope : String} (h : names.resolve imported scope n = .ok d) :
    IsType names d := by
  unfold Names.resolve at h
  split at h
  · exact isType_of_candidate (result_eq_ok.mp h)
  · split at h
    · exact isType_of_simple (fun e he => by simp at he) (result_eq_ok.mp h)
    · exact isType_of_dotted h
    · simp at h

/-- What the kind of a field names is defined as such. -/
structure Typed (names : Names) (k : Kind) : Prop where
  message : ∀ n, k.message? = some n → n ∈ names.held .message
  enum : ∀ n, k = .enum n → n ∈ names.held .enum

theorem typed_kindOf (h : IsType names d) (type : Descriptor.FieldType) : Typed names (kindOf type d) := by
  have hheld (role : Role) (hrole : d.role = role) : d.name ∈ names.held role :=
    mem_held.mpr ⟨d, h.mem, hrole, rfl⟩
  unfold kindOf
  split_ifs with henum hgroup
  · exact ⟨fun n hn => by simp [Kind.message?] at hn, fun n hn => Kind.enum.inj hn ▸ hheld .enum henum⟩
  all_goals
    have hmessage := hheld .message (h.role.resolve_right henum)
    exact ⟨fun n hn => Option.some.inj hn ▸ hmessage, fun n hn => by simp at hn⟩

theorem typed_of_resolveKind {scope : String} {path : List Nat} {f : Descriptor.Field} {k : Kind}
    (h : resolveKind names imported scope path f = .ok k) : Typed names k := by
  unfold resolveKind at h
  split at h
  · split at h
    · obtain rfl := Except.ok.inj h
      exact ⟨fun n hn => by simp [Kind.message?] at hn, fun n hn => by simp at hn⟩
    · simp at h
  · simp only [bind_eq_ok, pure_eq_ok] at h
    obtain ⟨d, hd, rfl⟩ := h
    exact typed_kindOf (isType_of_resolve hd) _

/-- **A field that resolves** has a type that is defined. -/
theorem typed_of_field {message : String} {oneofs : Nat} {path : List Nat} {f : Descriptor.Field}
    {g : Field} (h : s.field message oneofs path f = .ok g) : Typed s.names g.kind := by
  rw [Scope.field, refuse_eq_ok] at h
  simp only [bind_eq_ok, pure_eq_ok] at h
  obtain ⟨-, kind, hkind, value, -, oneof, -, rfl⟩ := h
  exact typed_of_resolveKind hkind

/-! ## Pools of files -/

/-- **The pool of any files is linked.** -/
theorem linked_of_ofFiles {files : List Descriptor.File} {p : Pool} (h : ofFiles files = .ok p) :
    Linked p := by
  obtain ⟨names, hnames⟩ := namedBy_of_ofFiles h
  have htyped : ∀ m ∈ p.messages, ∀ f ∈ m.fields, Typed names f.kind := by
    intro m hm
    obtain ⟨s, rfl, hs⟩ := hnames.resolved m hm
    exact hs.forall_mem fun _ _ _ _ hg => typed_of_field hg
  constructor
  case messages =>
    rw [hnames.messages, List.nodup_reverse]
    exact nodup_held hnames.nodup _
  case enums =>
    rw [hnames.enums, List.nodup_reverse]
    exact nodup_held hnames.nodup _
  case refers =>
    intro m hm f hf n hn
    have hmem := (htyped m hm f hf).message n hn
    rw [← List.mem_reverse, ← hnames.messages] at hmem
    exact List.mem_map.mp hmem
  case uses =>
    intro m hm f hf n hn
    have hmem := (htyped m hm f hf).enum n hn
    rw [← List.mem_reverse, ← hnames.enums] at hmem
    exact List.mem_map.mp hmem

/-! ## References -/

/-- A field of the first message refers to the second. -/
def Refers (p : Pool) (m o : Message) : Prop :=
  ∃ f ∈ m.fields, f.kind.message? = some o.fullName ∧ p.find o.fullName = some o

/-- A field of the message holds values of the enum. -/
def Uses (p : Pool) (m : Message) (e : Enum) : Prop :=
  e ∈ p.enums ∧ ∃ f ∈ m.fields, f.kind = .enum e.fullName

/-- References lead from the one message to the other, or they are the same. -/
def Leads (p : Pool) : Message → Message → Prop := Relation.ReflTransGen p.Refers

/-- One or more references lead from the one message to the other. -/
def Descends (p : Pool) : Message → Message → Prop := Relation.TransGen p.Refers

variable {p : Pool} {m o : Message}

theorem Descends.mem (h : p.Descends m o) : o ∈ p.messages := by
  cases h with
  | single h =>
    obtain ⟨-, -, -, hfind⟩ := h
    exact (mem_of_find hfind).1
  | tail _ h =>
    obtain ⟨-, -, -, hfind⟩ := h
    exact (mem_of_find hfind).1

/-- Messages of a linked pool are the same if their names are. -/
theorem Linked.message_eq (hp : Linked p) (hm : m ∈ p.messages) (ho : o ∈ p.messages)
    (h : m.fullName = o.fullName) : m = o :=
  List.inj_on_of_nodup_map hp.messages hm ho h

theorem Linked.enum_eq (hp : Linked p) {e e' : Enum} (he : e ∈ p.enums) (he' : e' ∈ p.enums)
    (h : e.fullName = e'.fullName) : e = e' :=
  List.inj_on_of_nodup_map hp.enums he he' h

end RowStream.Pool
