import RowStream.Proofs.Fallible
import RowStream.Proofs.Message.RoundTrip
import RowStream.Proofs.Row.Coerced
import RowStream.Proofs.Row.Distinct
import RowStream.Proofs.Row.Field
import RowStream.Proofs.Table.Field

/-!
# What a message says of a row

A message holds a row when each of its fields has what the column of its name gives it: nothing if the
column is missing or null, what the value becomes (`Becomes`), the list of what all items become, or a message
that holds the row of a STRUCT in turn. Nothing else is set, and every required field is (`Holds`).

That rows become messages that hold them is shown along the encoder, one case for each sort of value. A
repeated field and an empty list are the only place where a column that is not null leaves its field unset.

* `build_holds`: what the encoder makes of a row.
* `fits_of_holds`: a message that holds a row fits, as deep as the row nests.
-/

namespace RowStream.Row

open Descriptor (Scalar)
open Encoder (build fieldValue finish items missing? plain single)
open Message (FieldFits Fields Fits ItemFits MessageFits Regular)
open Pool (Field Kind)
open Table.Compile (columnScalars)

/-! ## What a message says of a row -/

mutual

/-- The value of a field of the kind is what the row's value becomes. -/
inductive Means (p : Pool) (convertDates : Bool) : Kind → Value → Message.Value → Prop
  | scalar {s : Scalar} {v : Value} {w : Message.Value} (becomes : Becomes convertDates s v w) :
      Means p convertDates (.scalar s) v w
  | struct {name : String} {m : Pool.Message} {columns : List (String × Value)} {fields : Fields}
      (found : p.find name = some m) (inside : Holds p convertDates m columns fields) :
      Means p convertDates (.message name) (.struct columns) (.message fields)

/-- The same for lists, item by item. -/
inductive MeansAll (p : Pool) (convertDates : Bool) :
    Kind → List Value → List Message.Value → Prop
  | nil {k : Kind} : MeansAll p convertDates k [] []
  | cons {k : Kind} {v : Value} {w : Message.Value} {vs : List Value} {ws : List Message.Value}
      (first : Means p convertDates k v w) (rest : MeansAll p convertDates k vs ws) :
      MeansAll p convertDates k (v :: vs) (w :: ws)

/-- What a field holds for the value that its column has, if it has one. -/
inductive Fills (p : Pool) (convertDates : Bool) :
    Field → Option Value → Option Message.Value → Prop
  | absent {f : Field} : Fills p convertDates f none none
  | null {f : Field} : Fills p convertDates f (some .null) none
  | empty {f : Field} (repeated : f.isRepeated = true) : Fills p convertDates f (some (.list [])) none
  | list {f : Field} {vs : List Value} {ws : List Message.Value} (repeated : f.isRepeated = true)
      (nonempty : vs ≠ []) (items : MeansAll p convertDates f.kind vs ws) :
      Fills p convertDates f (some (.list vs)) (some (.list ws))
  | single {f : Field} {v : Value} {w : Message.Value} (single : f.isRepeated = false)
      (item : Means p convertDates f.kind v w) : Fills p convertDates f (some v) (some w)

/-- The message holds the row: every column has a field, every field what its column gives it, nothing
else is set, and every required field is. -/
inductive Holds (p : Pool) (convertDates : Bool) :
    Pool.Message → List (String × Value) → Fields → Prop
  | intro {m : Pool.Message} {columns : List (String × Value)} {fields : Fields}
      (ordered : fields.Ordered)
      (known : ∀ c ∈ columns, ∃ f ∈ m.fields, f.name = c.1)
      (fills : ∀ f ∈ m.fields,
        Fills p convertDates f (Keyed.get? columns f.name) (fields.get? f.number))
      (only : ∀ x ∈ fields, ∃ f ∈ m.fields, f.number = x.1)
      (required : ∀ f ∈ m.fields, f.label = .required → fields.has f.number = true) :
      Holds p convertDates m columns fields

end

/-! ## What the encoder makes of a row -/

/-- What the field of a column holds: a scalar of one of the types that columns have, or a message. -/
def ColumnKind (k : Kind) : Prop := (∃ s ∈ columnScalars, k = .scalar s) ∨ ∃ n, k = .message n

/-- The messages of tables: fields differ in name and number, have presence unless they are repeated,
and are of the kinds that columns have. -/
structure Tabular (m : Pool.Message) : Prop extends Regular m, Message.Unbound m where
  named : (m.fields.map (·.name)).Nodup
  presence : ∀ f ∈ m.fields, f.presence = !f.isRepeated
  kind : ∀ f ∈ m.fields, ColumnKind f.kind

variable {p : Pool} {convertDates : Bool} {m : Pool.Message} {f : Field} {k : Kind} {v : Value}
  {w : Message.Value} {path : String}

theorem Tabular.isList_eq (hp : ∀ n m, p.find n = some m → Tabular m) :
    p.isList f = f.isRepeated := by
  refine Encoder.isList_eq fun m hm => ?_
  obtain ⟨n, -, hfind⟩ := Option.bind_eq_some_iff.mp hm
  exact (hp n m hfind).unmapped

theorem means_of_plain (hk : ColumnKind k) (h : plain p convertDates k path v = .ok w) :
    Means p convertDates k v w := by
  rcases hk with ⟨s, hs, rfl⟩ | ⟨n, rfl⟩
  · exact .scalar (becomes_of_toScalar hs (finish_eq_ok.mp h))
  · exact absurd h (by simp [plain, finish])

theorem asMessage_of_column {inner : Pool.Message → Except Encoder.Fault Fields}
    (hk : ColumnKind k) (h : Encoder.asMessage p k path inner = .ok w) :
    ∃ n m fields, k = .message n ∧ p.find n = some m ∧ inner m = .ok fields ∧ w = .message fields := by
  obtain ⟨n, m, fields, hn, hrest⟩ := asMessage_eq_ok h
  rcases hk with ⟨s, -, rfl⟩ | ⟨o, rfl⟩
  · exact nomatch hn
  · exact ⟨n, m, fields, congrArg Kind.message (Option.some.inj hn), hrest⟩

/-- What stays of a value that is put into a field: an empty list leaves it unset. -/
def stored (f : Field) (w : Message.Value) : Option Message.Value :=
  if f.isRepeated && w.sameScalar (.list []) then none else some w

theorem Tabular.get?_put (hm : Tabular m) (hf : f ∈ m.fields) {done : Fields} (h : done.Ordered)
    {number : Nat} : (Encoder.put p m f w done).get? number =
      if number = f.number then stored f w else done.get? number := by
  rw [Encoder.put_eq hm.toUnbound hf (hm.presence f hf), stored]
  split
  · exact h.get?_erase
  · exact h.get?_set

theorem Tabular.ordered_put (hm : Tabular m) (hf : f ∈ m.fields) {done : Fields} (h : done.Ordered) :
    (Encoder.put p m f w done).Ordered := by
  rw [Encoder.put_eq hm.toUnbound hf (hm.presence f hf)]
  split
  · exact h.erase _
  · exact h.set _ _

/-- What setting the fields of columns makes of a message. -/
structure Filled (p : Pool) (convertDates : Bool) (m : Pool.Message)
    (columns : List (String × Value)) (done fields : Fields) : Prop where
  ordered : fields.Ordered
  known : ∀ c ∈ columns, ∃ f ∈ m.fields, f.name = c.1
  fills : ∀ f ∈ m.fields, ∀ v, Keyed.get? columns f.name = some v →
    Fills p convertDates f (some v) (fields.get? f.number)
  others : ∀ number, (∀ f ∈ m.fields, f.number = number → Keyed.get? columns f.name = none) →
    fields.get? number = done.get? number
  required : ∀ f ∈ m.fields, f.label = .required → fields.has f.number = true

/-- One column, and then the others. -/
theorem Filled.cons (hm : Tabular m) (hf : f ∈ m.fields) {columns : List (String × Value)}
    (hfresh : f.name ∉ columns.map (·.1)) {done next fields : Fields}
    (hself : Fills p convertDates f (some v) (next.get? f.number))
    (hothers : ∀ number, number ≠ f.number → next.get? number = done.get? number)
    (h : Filled p convertDates m columns next fields) :
    Filled p convertDates m ((f.name, v) :: columns) done fields := by
  have hgone := Keyed.get?_eq_none.mpr hfresh
  have hsame {g : Field} (hg : g ∈ m.fields) (hname : g.name = f.name) : g = f :=
    List.inj_on_of_nodup_map hm.named hg hf hname
  have hkept : fields.get? f.number = next.get? f.number := by
    refine h.others f.number fun g hg hnumber => ?_
    rw [List.inj_on_of_nodup_map hm.distinct hg hf hnumber, hgone]
  constructor
  case ordered => exact h.ordered
  case known => exact List.forall_mem_cons.mpr ⟨⟨f, hf, rfl⟩, h.known⟩
  case fills =>
    intro g hg u hu
    by_cases hname : f.name = g.name
    · obtain rfl := hsame hg hname.symm
      rw [Keyed.get?_cons_self, Option.some.injEq] at hu
      exact hkept ▸ hu ▸ hself
    · rw [Keyed.get?_cons_of_ne hname] at hu
      exact h.fills g hg u hu
  case others =>
    intro number hnumber
    have hne : number ≠ f.number := by
      rintro rfl
      have hnone := hnumber f hf rfl
      rw [Keyed.get?_cons_self] at hnone
      exact absurd hnone (by simp)
    rw [← hothers number hne]
    refine h.others number fun g hg heq => ?_
    have hnone := hnumber g hg heq
    by_cases hname : f.name = g.name
    · exact hname ▸ hgone
    · rwa [Keyed.get?_cons_of_ne hname] at hnone
  case required => exact h.required

/-- A message that started empty holds the columns. -/
theorem Filled.holds (hm : Tabular m) {columns : List (String × Value)} {fields : Fields}
    (h : Filled p convertDates m columns [] fields) : Holds p convertDates m columns fields := by
  constructor
  case ordered => exact h.ordered
  case known => exact h.known
  case fills =>
    intro f hf
    cases hget : Keyed.get? columns f.name with
    | none =>
      rw [h.others f.number fun g hg hnumber =>
        (List.inj_on_of_nodup_map hm.distinct hg hf hnumber).symm ▸ hget]
      exact .absent
    | some v => exact h.fills f hf v hget
  case only =>
    intro x hx
    by_contra hnone
    have hunset := h.others x.1 fun f hf hnumber => absurd ⟨f, hf, hnumber⟩ hnone
    rw [h.ordered.get?_eq_some.mpr hx] at hunset
    exact nomatch hunset
  case required => exact h.required

/-- Where no column is left, all required fields are set. -/
theorem Filled.nil {done fields : Fields} (hdone : done.Ordered)
    (h : (match missing? m done with
      | some f => .error (.missingRequired (Text.qualify path f.name))
      | none => .ok done : Except Encoder.Fault Fields) = .ok fields) :
    Filled p convertDates m [] done fields := by
  cases hmissing : missing? m done with
  | some f => simp [hmissing] at h
  | none =>
    simp only [hmissing, Except.ok.injEq] at h
    subst h
    refine ⟨hdone, fun c hc => absurd hc List.not_mem_nil, fun f _ v hv => (nomatch hv),
      fun _ _ => rfl, fun f hf hlabel => ?_⟩
    have hset := List.find?_eq_none.mp hmissing f hf
    simpa [hlabel] using hset

theorem Fills.of_single (hr : f.isRepeated = false) (h : Means p convertDates f.kind v w) :
    Fills p convertDates f (some v) (stored f w) := by
  rw [stored, hr, Bool.false_and, if_neg (by decide)]
  exact .single hr h

theorem Fills.of_list (hr : f.isRepeated = true) {vs : List Value} {ws : List Message.Value}
    (h : MeansAll p convertDates f.kind vs ws) :
    Fills p convertDates f (some (.list vs)) (stored f (.list ws)) := by
  rw [stored, hr, Bool.true_and]
  cases h with
  | nil => exact .empty hr
  | cons first rest => exact .list hr (List.cons_ne_nil _ _) (.cons first rest)

mutual

/-- One value in a field of a kind. -/
theorem means_of_single (hp : ∀ n m, p.find n = some m → Tabular m) : ∀ (v : Value) {k : Kind}
    {path : String} {w : Message.Value}, v.Distinct → ColumnKind k →
      single p convertDates k path v = .ok w → Means p convertDates k v w
  | .struct columns, k, path, w, hv, hk, h => by
    simp only [single] at h
    obtain ⟨n, m, fields, rfl, hfind, hbuild, rfl⟩ := asMessage_of_column hk h
    exact .struct hfind (build_filled hp columns (hp n m hfind) hv.1 hv.2 List.Pairwise.nil
      (fun _ _ _ => rfl) hbuild |>.holds (hp n m hfind))
  | .null, _, _, _, _, hk, h | .bool _, _, _, _, _, hk, h | .int _, _, _, _, _, hk, h
  | .float _, _, _, _, _, hk, h | .string _, _, _, _, _, hk, h | .bytes _, _, _, _, _, hk, h
  | .date _, _, _, _, _, hk, h | .datetime _, _, _, _, _, hk, h | .timestamp _, _, _, _, _, hk, h
  | .list _, _, _, _, _, hk, h => by
    simp only [single] at h
    exact means_of_plain hk h

/-- The items of a list. -/
theorem meansAll_of_items (hp : ∀ n m, p.find n = some m → Tabular m) : ∀ (vs : List Value) {k : Kind}
    {path : String} {ws : List Message.Value}, ItemsDistinct vs → ColumnKind k →
      items p convertDates k path vs = .ok ws → MeansAll p convertDates k vs ws
  | [], _, _, _, _, _, h => by
    simp only [items, Except.ok.injEq] at h
    exact h ▸ .nil
  | v :: vs, _, _, _, hvs, hk, h => by
    simp only [items, bind_eq_ok, pure_eq_ok] at h
    obtain ⟨w, hw, ws, hws, rfl⟩ := h
    exact .cons (means_of_single hp v hvs.1 hk hw) (meansAll_of_items hp vs hvs.2 hk hws)

/-- A value in a field. -/
theorem fills_of_fieldValue (hp : ∀ n m, p.find n = some m → Tabular m) : ∀ (v : Value) {f : Field}
    {path : String} {o : Option Message.Value}, v.Distinct → ColumnKind f.kind →
      fieldValue p convertDates f path v = .ok o →
        Fills p convertDates f (some v) (o.bind (stored f))
  | .null, _, _, _, _, _, h => by
    simp only [fieldValue, Except.ok.injEq] at h
    exact h ▸ .null
  | .list vs, f, path, o, hv, hk, h => by
    simp only [fieldValue, Tabular.isList_eq hp] at h
    split at h
    · rename_i hr
      obtain ⟨ws, hws, rfl⟩ := map_eq_ok.mp h
      exact .of_list hr (meansAll_of_items hp vs hv hk hws)
    · exact absurd h (by simp)
  | .struct columns, f, path, o, hv, hk, h => by
    simp only [fieldValue, Tabular.isList_eq hp] at h
    split at h
    · exact absurd h (by simp)
    · rename_i hr
      obtain ⟨w, hw, rfl⟩ := map_eq_ok.mp h
      obtain ⟨n, m, fields, hkind, hfind, hbuild, rfl⟩ := asMessage_of_column hk hw
      have hholds := (build_filled hp columns (hp n m hfind) hv.1 hv.2 List.Pairwise.nil
        (fun _ _ _ => rfl) hbuild).holds (hp n m hfind)
      exact .of_single ((Bool.not_eq_true _).mp hr) (hkind ▸ .struct hfind hholds)
  | .bool _, f, path, o, hv, hk, h | .int _, f, path, o, hv, hk, h | .float _, f, path, o, hv, hk, h
  | .string _, f, path, o, hv, hk, h | .bytes _, f, path, o, hv, hk, h
  | .date _, f, path, o, hv, hk, h | .datetime _, f, path, o, hv, hk, h
  | .timestamp _, f, path, o, hv, hk, h => by
    simp only [fieldValue, Tabular.isList_eq hp] at h
    split at h
    · exact absurd h (by simp)
    · rename_i hr
      obtain ⟨w, hw, rfl⟩ := map_eq_ok.mp h
      exact .of_single ((Bool.not_eq_true _).mp hr) (means_of_plain hk hw)

/-- **The columns of a row**, each in its field. -/
theorem build_filled (hp : ∀ n m, p.find n = some m → Tabular m) :
    ∀ (columns : List (String × Value)) {m : Pool.Message} {outer : String} {done fields : Fields},
      Tabular m → (columns.map (·.1)).Nodup → ColumnsDistinct columns → done.Ordered →
        (∀ f ∈ m.fields, f.name ∈ columns.map (·.1) → done.get? f.number = none) →
          build p convertDates m outer done columns = .ok fields →
            Filled p convertDates m columns done fields
  | [], m, outer, done, fields, hm, _, _, hdone, _, h => by
    simp only [build] at h
    exact .nil hdone h
  | (name, v) :: columns, m, outer, done, fields, hm, hnodup, hdistinct, hdone, hfree, h => by
    simp only [build] at h
    cases hfield : m.field? name with
    | none => simp [hfield, throw, throwThe, MonadExceptOf.throw] at h
    | some f =>
      simp only [hfield, bind_eq_ok] at h
      obtain ⟨o, ho, h⟩ := h
      have hf : f ∈ m.fields := List.mem_of_find?_eq_some hfield
      obtain rfl : f.name = name := by simpa using List.find?_some hfield
      obtain ⟨hfresh, hnodup⟩ := List.nodup_cons.mp hnodup
      have hfills := fills_of_fieldValue hp v hdistinct.1 (hm.kind f hf) ho
      -- the numbers of the columns that are left are still free
      have hne {g : Field} (hg : g ∈ m.fields) (hname : g.name ∈ columns.map (·.1)) :
          g.number ≠ f.number := fun hnumber =>
        hfresh (List.inj_on_of_nodup_map hm.distinct hg hf hnumber ▸ hname)
      have hleft : ∀ g ∈ m.fields, g.name ∈ columns.map (·.1) → done.get? g.number = none :=
        fun g hg hname => hfree g hg (List.mem_cons_of_mem _ hname)
      cases o with
      | none =>
        have hself : done.get? f.number = none := hfree f hf List.mem_cons_self
        exact .cons hm hf hfresh (hself ▸ hfills) (fun _ _ => rfl)
          (build_filled hp columns hm hnodup hdistinct.2 hdone hleft h)
      | some w =>
        have hput : ∀ number, (Encoder.put p m f w done).get? number =
            if number = f.number then stored f w else done.get? number :=
          fun _ => hm.get?_put hf hdone
        have hnext : Filled p convertDates m columns (Encoder.put p m f w done) fields :=
          build_filled hp columns hm hnodup hdistinct.2 (hm.ordered_put hf hdone)
            (fun g hg hname => by rw [hput, if_neg (hne hg hname), hleft g hg hname]) h
        refine .cons hm hf hfresh ?_ (fun number hnumber => ?_) hnext
        · rw [hput, if_pos rfl]
          exact hfills
        · rw [hput, if_neg hnumber]

end

/-- **What the encoder makes of a row** holds it. -/
theorem build_holds (hp : ∀ n m, p.find n = some m → Tabular m) (hm : Tabular m) {row : Row}
    (hrow : Value.Distinct (.struct row)) {outer : String} {fields : Fields}
    (h : build p convertDates m outer [] row = .ok fields) : Holds p convertDates m row fields :=
  (build_filled hp row hm hrow.1 hrow.2 List.Pairwise.nil (fun _ _ _ => rfl) h).holds hm

/-! ## Messages that hold rows fit -/

/-- Every item of a list comes from one of the row's. -/
theorem MeansAll.exists_of_mem {vs : List Value} {ws : List Message.Value}
    (h : MeansAll p convertDates k vs ws) (hw : w ∈ ws) : ∃ v ∈ vs, Means p convertDates k v w := by
  induction vs generalizing ws with
  | nil =>
    cases h
    exact absurd hw List.not_mem_nil
  | cons v vs ih =>
    cases h with
    | cons first rest =>
      rcases List.mem_cons.mp hw with rfl | hw
      · exact ⟨v, List.mem_cons_self, first⟩
      · obtain ⟨u, hu, hmeans⟩ := ih rest hw
        exact ⟨u, List.mem_cons_of_mem v hu, hmeans⟩

section

variable {inner : String → Fields → Prop} {depth : Nat}

/-- The messages that hold rows, nested below `depth`, are those inside. -/
def Inside (p : Pool) (convertDates : Bool) (depth : Nat) (inner : String → Fields → Prop) : Prop :=
  ∀ name m columns fields, p.find name = some m → Holds p convertDates m columns fields →
    columnsNesting columns < depth → inner name fields

theorem itemFits_of_means (hinner : Inside p convertDates depth inner)
    (h : Means p convertDates k v w) (hv : v.nesting ≤ depth) : ItemFits depth inner k w := by
  cases h with
  | scalar becomes => exact .plain becomes.typed
  | struct found inside =>
    rw [Value.nesting] at hv
    exact .message (hinner _ _ _ _ found inside hv)

theorem fieldFits_of_fills (hinner : Inside p convertDates depth inner)
    (h : Fills p convertDates f (some v) (some w)) (hv : v.nesting ≤ depth) :
    FieldFits depth inner f w := by
  cases h with
  | single hr item => exact .single hr (itemFits_of_means hinner item hv)
  | @list _ vs ws hr hne hall =>
    refine .list hr (.inl ?_) fun w hw => ?_
    · rintro rfl
      cases hall
      exact hne rfl
    · obtain ⟨v, hmem, hmeans⟩ := hall.exists_of_mem hw
      rw [Value.nesting] at hv
      exact itemFits_of_means hinner hmeans (Nat.le_trans (nesting_le_items hmem) hv)

theorem messageFits_of_holds (hinner : Inside p convertDates depth inner) (hm : Tabular m)
    {columns : List (String × Value)} {fields : Fields} (h : Holds p convertDates m columns fields)
    (hdepth : columnsNesting columns ≤ depth) : MessageFits depth inner m fields := by
  obtain ⟨hordered, -, hfills, honly, -⟩ := h
  refine ⟨hordered, fun x hx => ?_, hm.toUnbound.chosen fields⟩
  obtain ⟨f, hf, hnumber⟩ := honly x hx
  refine ⟨f, hf, hnumber, ?_⟩
  have hfill := hfills f hf
  rw [hnumber, hordered.get?_eq_some.mpr hx] at hfill
  cases hget : Keyed.get? columns f.name with
  | none =>
    rw [hget] at hfill
    cases hfill
  | some v =>
    rw [hget] at hfill
    exact fieldFits_of_fills hinner hfill
      (Nat.le_trans (nesting_le_columns (Keyed.mem_of_get? hget)) hdepth)

end

theorem inside_fits (hp : ∀ n m, p.find n = some m → Tabular m) (depth : Nat) :
    Inside p convertDates depth (Fits p depth) := by
  induction depth with
  | zero => exact fun _ _ _ _ _ _ hdepth => absurd hdepth (Nat.not_lt_zero _)
  | succ depth ih =>
    intro name m columns fields hfind hholds hdepth
    exact ⟨m, hfind, messageFits_of_holds ih (hp name m hfind) hholds (Nat.le_of_lt_succ hdepth)⟩

/-- **A message that holds a row fits**, as deep as the row nests. -/
theorem fits_of_holds (hp : ∀ n m, p.find n = some m → Tabular m) (hm : Tabular m) {row : Row}
    {fields : Fields} (h : Holds p convertDates m row fields) {depth : Nat}
    (hdepth : columnsNesting row ≤ depth) : MessageFits depth (Fits p depth) m fields :=
  messageFits_of_holds (inside_fits hp depth) hm h hdepth

end RowStream.Row
