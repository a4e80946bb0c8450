import Mathlib
import RowStream.Proofs.Fallible
import RowStream.Proofs.Row.Integer
import RowStream.Proofs.Row.Place

/-!
# Integers and their spellings in rows

In a field of a signed integer type an integer and a text that spells it stand for the same number, so one
can take the other's place in a row, as the value of a column or an item of a list, at any depth: the rows
become the same bytes or fail alike. A field of text turns an integer into its decimal form, so these two
can change places there.

A text that denotes an integer of more than 64 bits is a mismatch, and never becomes another integer. A
list of rows with such a text fails with that mismatch, unless something before it is wrong already; then
it fails whatever stands in its place.

* `encode_place`, `encode_place_fails`: lists of rows around a value.
* `spellings_agree`: integers, texts and lists of rows.
-/

namespace RowStream.Encoder

open Integer (Denotes Spells)
open Pool (Kind)
open Row (Integers Place)

variable {e : Encoder} {k : Kind} {path : String} {C : Row.Value → Row} {v w : Row.Value}

/-- Values that become the same in fields of a kind can change places. -/
theorem encode_place (hC : Place e.shape.pool k e.shape.message "" path C) (hv : v ≠ .null)
    (hw : w ≠ .null)
    (h : single e.shape.pool e.convertDates k path v = single e.shape.pool e.convertDates k path w)
    (before after : List Row) :
    e.encode (before ++ C v :: after) = e.encode (before ++ C w :: after) := by
  refine encodeFrom_congr ?_ before after 0
  rw [encodeRow, encodeRow, message, message, hC.build_stable Row.stable_eq hv hw h []]

/-- A value that is a fault makes the rows around it fail with the fault, or they fail whatever value
stands there. -/
theorem encode_place_fails (hC : Place e.shape.pool k e.shape.message "" path C) (hw : w ≠ .null)
    {fault : Fault} (h : single e.shape.pool e.convertDates k path w = .error fault)
    (before after : List Row) :
    e.encode (before ++ C w :: after) = .error ⟨before.length, fault⟩ ∨
      ∃ err, ∀ v, v ≠ .null → e.encode (before ++ C v :: after) = .error err := by
  have hfails (v : Row.Value) (hv : v ≠ .null) :
      e.encode (before ++ C w :: after) = .error ⟨0 + before.length, fault⟩ ∨
        ∃ err, e.encode (before ++ C v :: after) = .error err ∧
          e.encode (before ++ C w :: after) = .error err := by
    refine encodeFrom_fails ?_ before after 0
    exact (Row.stable_fails fault).map _ (hC.build_stable (Row.stable_fails fault) hv hw (.inl h) [])
  rw [Nat.zero_add] at hfails
  by_cases hhere : e.encode (before ++ C w :: after) = .error ⟨before.length, fault⟩
  · exact .inl hhere
  · obtain ⟨err, -, herr⟩ := (hfails w hw).resolve_left hhere
    refine .inr ⟨err, fun v hv => ?_⟩
    obtain ⟨err', hv', hw'⟩ := (hfails v hv).resolve_left hhere
    rw [hv', ← hw', herr]

/-- **Integers and their texts agree.** In a list of rows, at a place for a value of a signed integer
type, an integer of 64 bits and any text that spells it give the same result; at a place for text an
integer and its decimal form do, which is one of its spellings. A text that denotes an integer of more
than 64 bits is a mismatch at a place for integers. -/
theorem spellings_agree (hC : Place e.shape.pool k e.shape.message "" path C)
    (before after : List Row) :
    (∀ s i, k = .scalar s → Integers.of? s = some i →
      (∀ (n : Int64) (text : String), Spells n.toInt text →
        e.encode (before ++ C (.int n) :: after) = e.encode (before ++ C (.string text) :: after)) ∧
      ∀ (n : Int) (text : String), Denotes (Text.trim text).toList n →
        Integer.Range.int64.has n = false →
          e.encode (before ++ C (.string text) :: after) =
              .error ⟨before.length, .mismatch path s.name "string"⟩ ∨
            ∃ err, ∀ v, v ≠ .null → e.encode (before ++ C v :: after) = .error err) ∧
    (k = .scalar .string → ∀ n : Int64, Spells n.toInt (Integer.text n.toInt) ∧
      e.encode (before ++ C (.int n) :: after) =
        e.encode (before ++ C (.string (Integer.text n.toInt)) :: after)) := by
  refine ⟨?integers, ?text⟩
  case integers =>
    rintro s i rfl hs
    refine ⟨fun n text h => ?_, fun n text h hwide => ?_⟩
    · refine encode_place hC (by simp) (by simp) ?_ before after
      have hint : Row.Value.integer? e.convertDates i.ofDate (.int n) = some n.toInt := rfl
      rw [Row.single_integer hs hint,
        Row.single_integer hs ((Row.integer?_of_spells h i.ofDate).trans hint)]
    · refine encode_place_fails hC (by simp) ?_ before after
      exact Row.single_not_integer hs (Row.integer?_of_wide h hwide i.ofDate) path
  case text =>
    rintro rfl n
    refine ⟨Integer.spells_text n.toInt, ?_⟩
    refine encode_place hC (by simp) (by simp) ?_ before after
    rw [Row.single_scalar, Row.single_scalar]
    rfl

/-- The least integer of 64 bits in a list inside a row of a list, spelled with a zero and a blank, and the
integer below it. -/
theorem spellings_agree_least :
    let x : Pool.Field := { (default : Pool.Field) with
      name := "x", number := 1, kind := .scalar .sint64, label := .repeated }
    let a : Pool.Field := { (default : Pool.Field) with
      name := "a", number := 1, kind := .message "b", label := .repeated }
    let b : Pool.Message := { (default : Pool.Message) with fullName := "b", fields := [x] }
    let e : Encoder := ⟨⟨{ messages := [b] }, { (default : Pool.Message) with fields := [a] }⟩, false⟩
    let row (v : Row.Value) : Row := [("a", .list [.struct [("x", .list [.int 7, v])]])]
    e.encode [[], row (.int Int64.minValue)] = e.encode [[], row (.string "-09223372036854775808 ")] ∧
      e.encode [[], row (.string "-9223372036854775809")] =
        .error ⟨1, .mismatch "a.x" "sint64" "string"⟩ := by
  intro x a b e row
  have hrow : Row.Within e.shape.pool b (Text.qualify "" "a") e.shape.message "" _ :=
    .item [] [] [] [] (f := a) rfl rfl .here
  have hfield : b.field? "x" = some x := rfl
  have hC : Place e.shape.pool (.scalar .sint64) e.shape.message "" "a.x" row :=
    .item [] [] [.int 7] [] hrow hfield rfl
  have hnone : ∀ c ∈ ([] : List Char), Text.isBlank c = true := by simp
  have hblank : ∀ c ∈ [' '], Text.isBlank c = true := List.forall_mem_singleton.mpr (by decide)
  have hminus : ['-'] ∈ Integer.signs Int64.minValue.toInt := by decide
  have hleast : Spells Int64.minValue.toInt "-09223372036854775808 " := .intro 1 hnone hblank hminus
  have hdigits : Integer.Digits "9223372036854775809".toList :=
    ⟨by decide, List.all_eq_true.mp (by decide)⟩
  have hbelow : Denotes (Text.trim "-9223372036854775809").toList (-9223372036854775809) :=
    .minus hdigits
  obtain ⟨hsame, hwide⟩ := (spellings_agree hC [[]] []).1 _ _ rfl rfl
  have htaken : (e.encode [[], row (.int 7)]).isOk = true := by cbv
  refine ⟨hsame _ _ hleast, (hwide _ _ hbelow (by decide)).resolve_right ?_⟩
  rintro ⟨err, herr⟩
  obtain ⟨out, hout⟩ := isOk_iff.mp htaken
  exact absurd ((herr (.int 7) (by simp)).symm.trans hout) (by simp)

end RowStream.Encoder
