import Mathlib
import RowStream.Proofs.Row.Meaning
import RowStream.Proofs.Table.Resolved

/-!
# Rows come back from their bytes

The messages of a table are tabular, in both dialects: what the encoder and the wire need of them follows
from the columns. So a list of rows that is accepted becomes one byte string for each, and to read one
back gives a message that holds the row: every value is there, nothing else is, and no required field is
missing, however deep rows nest.

The reader stops at a depth of its own; a row comes back as long as it does not nest deeper than that.

* `Resolved.tabular`: the messages of a table.
* `encode_comesBack`: rows, and what comes back.
* `comesBack_of_json`: rows from JSON.
-/

namespace RowStream.Table.Compile.Resolved

open Descriptor (Dialect)

variable {dialect : Dialect} {root : Scope} {es : List Entry} {shape : Shape} {e : Entry}

/-- The fields of a message can be told apart on the wire. -/
theorem regular (h : Resolved dialect root es shape) (he : e ∈ es) :
    Message.Regular (e.resolved dialect) := by
  have hmessage := h.messageOf he
  constructor
  case distinct => exact List.pairwise_map.mpr ((h.distinct he).imp fun hfg => hfg.1)
  case positive =>
    intro f hf
    obtain ⟨i, c, -, hof⟩ := hmessage.of_mem hf
    exact hof.number ▸ Nat.succ_pos i
  case bounded =>
    intro f hf
    obtain ⟨i, c, hc, hof⟩ := hmessage.of_mem hf
    have hlt : i < e.scope.columns.length := (List.getElem?_eq_some_iff.mp hc).1
    have hfew := hmessage.bounded
    have hmax : 19000 < twoTo 29 := by decide
    rw [hof.number]
    omega
  case packed =>
    intro f hf
    obtain ⟨_, _, -, hof⟩ := hmessage.of_mem hf
    exact fun hpacked => Bool.and_eq_true_iff.mp (hof.packed.symm.trans hpacked)

/-- **The messages of a table are tabular.** -/
theorem tabular (h : Resolved dialect root es shape) (he : e ∈ es) :
    Row.Tabular (e.resolved dialect) := by
  have hmessage := h.messageOf he
  constructor
  case toRegular => exact h.regular he
  case toUnbound => exact hmessage.toUnbound
  case named =>
    refine List.pairwise_map.mpr ((h.distinct he).imp_of_mem fun {f g} hf hg hfg hname => hfg.2 ?_)
    obtain ⟨_, _, -, hof⟩ := hmessage.of_mem hf
    obtain ⟨_, _, -, hog⟩ := hmessage.of_mem hg
    rw [hof.jsonName, hog.jsonName, hname]
  case presence =>
    intro f hf
    obtain ⟨_, _, -, hof⟩ := hmessage.of_mem hf
    exact hof.presence
  case kind =>
    intro f hf
    obtain ⟨i, c, -, hof⟩ := hmessage.of_mem hf
    rcases hof.kind with ⟨s, hs, -, hkind⟩ | ⟨-, hkind⟩
    · exact .inl ⟨s, hs, hkind⟩
    · exact .inr ⟨_, hkind⟩

/-- All messages of the pool are. -/
theorem tabular_of_find (h : Resolved dialect root es shape) :
    ∀ n m, shape.pool.find n = some m → Row.Tabular m := by
  intro n m hfind
  obtain ⟨e, he, -, rfl⟩ := h.of_find hfind
  exact h.tabular he

end RowStream.Table.Compile.Resolved

namespace RowStream.Encoder

open Descriptor (Dialect)
open Message (decodeWithin)
open Row (Holds columnsNesting)
open Table (MessageOf)

/-- The message holds the row and is what the bytes write, read at least as deep as the row nests. -/
def ComesBack (e : Encoder) (row : Row) (bytes : List UInt8) : Prop :=
  ∃ fields, Holds e.shape.pool e.convertDates e.shape.message row fields ∧
    ∀ depth, columnsNesting row ≤ depth → decodeWithin depth e.shape bytes = some fields

variable {e : Encoder}

/-- One row comes back. -/
theorem comesBack (hp : ∀ n m, e.shape.pool.find n = some m → Row.Tabular m)
    (hm : Row.Tabular e.shape.message) {row : Row} (hrow : Row.Value.Distinct (.struct row))
    {bytes : List UInt8} (h : e.encodeRow row = .ok bytes) (hlength : bytes.length < twoTo 64) :
    e.ComesBack row bytes := by
  obtain ⟨fields, hbuild, rfl⟩ := map_eq_ok.mp h
  have hholds := Row.build_holds hp hm hrow hbuild
  refine ⟨fields, hholds, fun depth hdepth => ?_⟩
  exact Message.decodeWithin_encode (fun n m hfind => (hp n m hfind).toRegular) hm.toRegular
    (Row.fits_of_holds hp hm hholds hdepth) hlength

/-- Rows come back one after the other. -/
theorem comesBack_of_encodeFrom (hp : ∀ n m, e.shape.pool.find n = some m → Row.Tabular m)
    (hm : Row.Tabular e.shape.message) {rows : List Row} {k : Nat} {out : List (List UInt8)}
    (h : e.encodeFrom k rows = .ok out) (hrows : ∀ row ∈ rows, Row.Value.Distinct (.struct row))
    (hlength : ∀ bytes ∈ out, bytes.length < twoTo 64) : List.Forall₂ e.ComesBack rows out := by
  replace h := encodeFrom_eq_ok h
  induction h with
  | nil => exact .nil
  | cons hrow _ ih =>
    obtain ⟨hfirst, hrows⟩ := List.forall_mem_cons.mp hrows
    obtain ⟨hbytes, hlength⟩ := List.forall_mem_cons.mp hlength
    exact .cons (comesBack hp hm hfirst hrow hbytes) (ih hrows hlength)

/-- The rows of a table come back. -/
theorem comesBack_of_table {es : List Table.Compile.Entry} {root : Table.Scope} {dialect : Dialect}
    (hr : Table.Compile.Resolved dialect root es e.shape) {rows : List Row} {out : List (List UInt8)}
    (hencode : encode e rows = .ok out) (hrows : ∀ row ∈ rows, Row.Value.Distinct (.struct row))
    (hlength : ∀ bytes ∈ out, bytes.length < twoTo 64) : List.Forall₂ e.ComesBack rows out := by
  obtain ⟨e₀, he₀, -, hmessage⟩ := hr.top
  have hm : Row.Tabular e.shape.message := hmessage ▸ hr.tabular he₀
  exact comesBack_of_encodeFrom hr.tabular_of_find hm hencode hrows hlength

/-- **Rows come back from their bytes.** The fields of the message are those of the table's columns, and
every message inside is that of a scope of the schema. Rows that are accepted, none of which gives a
column twice, become one byte string each, in order, and each comes back. -/
theorem encode_comesBack {s : Table.Schema} {scope : String} {dialect : Dialect} {shape : Shape}
    (h : Shape.ofTable s scope dialect = .ok shape) {convertDates : Bool} {rows : List Row}
    {out : List (List UInt8)} (hencode : encode ⟨shape, convertDates⟩ rows = .ok out)
    (hrows : ∀ row ∈ rows, Row.Value.Distinct (.struct row))
    (hlength : ∀ bytes ∈ out, bytes.length < twoTo 64) :
    MessageOf dialect ⟨scope, s.columns⟩ shape.message ∧
      (∀ n m, shape.pool.find n = some m → ∃ path t,
        (⟨scope, s.columns⟩ : Table.Scope).at? path = some t ∧ MessageOf dialect t m) ∧
      List.Forall₂ (ComesBack ⟨shape, convertDates⟩) rows out := by
  obtain ⟨es, -, hr⟩ := Table.Compile.resolved_of_ofTable h
  obtain ⟨e₀, he₀, hscope, hmessage⟩ := hr.top
  refine ⟨hmessage ▸ hscope ▸ hr.messageOf he₀, fun n m hfind => ?_, ?_⟩
  · obtain ⟨e, he, -, rfl⟩ := hr.of_find hfind
    exact ⟨e.path, e.scope, hr.registered.located_of_mem he, hr.messageOf he⟩
  · exact comesBack_of_table hr hencode hrows hlength

/-- A negative number in a list of STRUCT values, and a packed list. -/
theorem encode_comesBack_nested :
    let s : Table.Schema := ⟨[{ name := "n", type := 2, mode := 3 },
      { name := "a", type := 4, mode := 3, columns := [{ name := "x", type := 2, mode := 2 }] }]⟩
    let rows : List Row := [[("a", .list [.struct [("x", .int (-1))]]), ("n", .list [.int 2, .int 3])]]
    let out : List (List UInt8) :=
      [[10, 2, 2, 3, 18, 11, 8, 255, 255, 255, 255, 255, 255, 255, 255, 255, 1]]
    ∃ shape, Shape.ofTable s "root" .proto2 = .ok shape ∧ encode ⟨shape, false⟩ rows = .ok out ∧
      List.Forall₂ (ComesBack ⟨shape, false⟩) rows out := by
  intro s rows out
  have hout : ((Shape.ofTable s "root" .proto2).toOption.bind fun t =>
      (encode ⟨t, false⟩ rows).toOption) = some out := by cbv
  obtain ⟨shape, h, hencode⟩ := Option.bind_eq_some_iff.mp hout
  rw [toOption_eq_some] at h hencode
  have hrows : ∀ row ∈ rows, Row.Value.Distinct (.struct row) := by
    simp [rows, Row.Value.Distinct, Row.ItemsDistinct, Row.ColumnsDistinct]
  exact ⟨shape, h, hencode, (encode_comesBack h hencode hrows (by decide)).2.2⟩

/-- **Rows from JSON** give no column twice, so they come back whenever they are accepted. -/
theorem comesBack_of_json {s : Table.Schema} {scope : String} {dialect : Dialect} {shape : Shape}
    (h : Shape.ofTable s scope dialect = .ok shape) {convertDates : Bool} {rows : List Row}
    {out : List (List UInt8)} (hencode : encode ⟨shape, convertDates⟩ rows = .ok out)
    (hjson : ∀ row ∈ rows, ∃ j, Row.ofJson? j = some row)
    (hlength : ∀ bytes ∈ out, bytes.length < twoTo 64) :
    List.Forall₂ (ComesBack ⟨shape, convertDates⟩) rows out := by
  obtain ⟨es, -, hr⟩ := Table.Compile.resolved_of_ofTable h
  refine comesBack_of_table hr hencode (fun row hrow => ?_) hlength
  obtain ⟨j, hj⟩ := hjson row hrow
  exact Row.distinct_of_ofJson? hj

end RowStream.Encoder
