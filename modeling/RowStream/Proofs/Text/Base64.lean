import Mathlib.Data.List.Basic
import RowStream.Text.Base64

/-!
# Bytes survive as base 64

Three bytes are the digits of a number to the base 256, and the same number has four digits to the base
64. The last group has zeros after its bytes, which the reader cuts off again.

* `decode_encode`: bytes are read back from their text.
* `encodeChars_range`: the text has visible ASCII characters only.
-/

namespace RowStream.Base64

/-! ## Digits -/

theorem digit?_digit {n : Nat} (h : n < 64) : digit? (digit n) = some n := by
  have hall : ∀ n < 64, digit? (digit n) = some n := by decide
  exact hall n h

theorem digit_ne_pad {n : Nat} (h : n < 64) : digit n ≠ '=' := by
  have hall : ∀ n < 64, digit n ≠ '=' := by decide
  exact hall n h

theorem digit_range {n : Nat} (h : n < 64) : 32 < (digit n).toNat ∧ (digit n).toNat < 128 := by
  have hall : ∀ n < 64, 32 < (digit n).toNat ∧ (digit n).toNat < 128 := by decide
  exact hall n h

/-! ## Groups -/

variable {a b c d : Char} {x y z w : Nat}

theorem full_of_digits (ha : digit? a = some x) (hb : digit? b = some y) (hc : digit? c = some z)
    (hd : digit? d = some w) : full a b c d =
      some [UInt8.ofNat ((((x * 64 + y) * 64 + z) * 64 + w) / 65536),
        UInt8.ofNat ((((x * 64 + y) * 64 + z) * 64 + w) / 256 % 256),
        UInt8.ofNat ((((x * 64 + y) * 64 + z) * 64 + w) % 256)] := by
  simp only [full, ha, hb, hc, hd, Option.bind_eq_bind, Option.bind_some]

theorem lastTwo_of_digits (ha : digit? a = some x) (hb : digit? b = some y)
    (hc : digit? c = some z) (hz : ((x * 64 + y) * 64 + z) % 4 = 0) : lastTwo a b c =
      some [UInt8.ofNat (((x * 64 + y) * 64 + z) / 1024),
        UInt8.ofNat (((x * 64 + y) * 64 + z) / 4 % 256)] := by
  simp only [lastTwo, ha, hb, hc, Option.bind_eq_bind, Option.bind_some, if_pos hz]

theorem lastOne_of_digits (ha : digit? a = some x) (hb : digit? b = some y)
    (hz : (x * 64 + y) % 16 = 0) : lastOne a b = some [UInt8.ofNat ((x * 64 + y) / 16)] := by
  simp only [lastOne, ha, hb, Option.bind_eq_bind, Option.bind_some, if_pos hz]

theorem decodeChars_full (hd : d ≠ '=') (cs : List Char) : decodeChars (a :: b :: c :: d :: cs) =
    (full a b c d).bind fun bytes => (decodeChars cs).map (bytes ++ ·) := by
  rw [decodeChars]
  · cases full a b c d with
    | none => rfl
    | some bytes => cases decodeChars cs <;> rfl
  · rintro - rfl
    exact fun _ => hd rfl
  · exact fun h => absurd h hd

/-! ## Bytes -/

theorem ofNat_of_eq {n : Nat} {u : UInt8} (h : n = u.toNat) : UInt8.ofNat n = u := by
  rw [h, UInt8.ofNat_toNat]

theorem decodeChars_encodeChars (bytes : List UInt8) :
    decodeChars (encodeChars bytes) = some bytes := by
  induction bytes using encodeChars.induct with
  | case1 => rfl
  | case2 a =>
    have ha := a.toNat_lt
    rw [encodeChars, decodeChars, lastOne_of_digits (digit?_digit (by omega))
      (digit?_digit (by omega)) (by omega), ofNat_of_eq (u := a) (by omega)]
  | case3 a b =>
    have ha := a.toNat_lt
    have hb := b.toNat_lt
    rw [encodeChars, decodeChars, lastTwo_of_digits (digit?_digit (by omega))
      (digit?_digit (by omega)) (digit?_digit (by omega)) (by omega),
      ofNat_of_eq (u := a) (by omega), ofNat_of_eq (u := b) (by omega)]
    exact digit_ne_pad (by omega)
  | case4 a b c rest ih =>
    have ha := a.toNat_lt
    have hb := b.toNat_lt
    have hc := c.toNat_lt
    rw [encodeChars, decodeChars_full (digit_ne_pad (by omega)),
      full_of_digits (digit?_digit (by omega)) (digit?_digit (by omega))
        (digit?_digit (by omega)) (digit?_digit (by omega)),
      ofNat_of_eq (u := a) (by omega), ofNat_of_eq (u := b) (by omega),
      ofNat_of_eq (u := c) (by omega), Option.bind_some, ih]
    rfl

/-- **Bytes are read back from their text.** -/
theorem decode_encode (bytes : List UInt8) : decode (encode bytes) = some bytes := by
  rw [decode, encode, String.toList_ofList, decodeChars_encodeChars]

/-- The text has visible ASCII characters only. -/
theorem encodeChars_range (bytes : List UInt8) :
    ∀ c ∈ encodeChars bytes, 32 < c.toNat ∧ c.toNat < 128 := by
  have hpad : 32 < '='.toNat ∧ '='.toNat < 128 := by decide
  induction bytes using encodeChars.induct with
  | case1 => exact fun _ hc => absurd hc List.not_mem_nil
  | case2 a =>
    have ha := a.toNat_lt
    simp only [encodeChars, List.forall_mem_cons]
    exact ⟨digit_range (by omega), digit_range (by omega), hpad, hpad, by simp⟩
  | case3 a b =>
    have ha := a.toNat_lt
    have hb := b.toNat_lt
    simp only [encodeChars, List.forall_mem_cons]
    exact ⟨digit_range (by omega), digit_range (by omega), digit_range (by omega), hpad, by simp⟩
  | case4 a b c rest ih =>
    have ha := a.toNat_lt
    have hb := b.toNat_lt
    have hc := c.toNat_lt
    simp only [encodeChars, List.forall_mem_cons]
    exact ⟨digit_range (by omega), digit_range (by omega), digit_range (by omega),
      digit_range (by omega), ih⟩

end RowStream.Base64
