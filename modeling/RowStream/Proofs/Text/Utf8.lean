import RowStream.Text.Utf8

/-!
# Text survives as bytes

Reading takes the bytes of one character after the other, whatever follows them: their first byte says
how many there are, and the six bits of each of the others come back as they went in.

* `decode_encode`: every text is read back from its bytes.
* `isSome_of_ascii`: bytes that can be read can be cut at every ASCII character.
-/

namespace RowStream.Utf8

theorem ofNatAux_toNat (c : Char) (h : c.toNat.isValidChar) : Char.ofNatAux c.toNat h = c := by
  apply Char.ext
  apply UInt32.toNat_inj.mp
  rfl

/-- The number of a character gives the character back. -/
theorem scalar_toNat {least n : Nat} {c : Char} (hn : n = c.toNat) (h : least ≤ n) :
    scalar least n = some c := by
  subst hn
  have hvalid : c.toNat.isValidChar := c.valid
  rw [scalar, dif_pos ⟨h, hvalid⟩, ofNatAux_toNat]

/-- Six bits come back from the byte that continues a character. -/
theorem tail_ofNat {n : Nat} (h : n < 64) : tail (UInt8.ofNat (n + 128)) = some n := by
  have hnat : (UInt8.ofNat (n + 128)).toNat = n + 128 := by
    simp only [UInt8.toNat_ofNat']
    omega
  have hrange : 0x80 ≤ UInt8.ofNat (n + 128) ∧ UInt8.ofNat (n + 128) < 0xC0 := by
    simp only [UInt8.le_iff_toNat_le, UInt8.lt_iff_toNat_lt, hnat]
    exact ⟨Nat.le_add_left 128 n, Nat.add_lt_add_right h 128⟩
  simp only [tail, hrange, and_self, if_true, hnat]
  exact congrArg some (Nat.add_sub_cancel n 128)

/-- The first byte of a character of several bytes says how many they are. -/
theorem width_ofNat {n lead w : Nat} (h : n + lead < 256)
    (hw : (w = 2 ∧ 0xC2 ≤ n + lead ∧ n + lead < 0xE0) ∨ (w = 3 ∧ 0xE0 ≤ n + lead ∧ n + lead < 0xF0) ∨
      (w = 4 ∧ 0xF0 ≤ n + lead ∧ n + lead < 0xF5)) : width (UInt8.ofNat (n + lead)) = w := by
  have hnat : (UInt8.ofNat (n + lead)).toNat = n + lead := by
    simp only [UInt8.toNat_ofNat']
    omega
  simp only [width, UInt8.lt_iff_toNat_lt, hnat, UInt8.reduceToNat]
  rcases hw with ⟨rfl, hle, hlt⟩ | ⟨rfl, hle, hlt⟩ | ⟨rfl, hle, hlt⟩
  · rw [if_neg (by omega), if_neg (by omega), if_pos hlt]
  · rw [if_neg (by omega), if_neg (by omega), if_neg (by omega), if_pos hlt]
  · rw [if_neg (by omega), if_neg (by omega), if_neg (by omega), if_neg (by omega), if_pos hlt]

theorem toNat_lead (n lead : Nat) (h : n + lead < 256) :
    (UInt8.ofNat (n + lead)).toNat - lead = n := by
  simp only [UInt8.toNat_ofNat']
  omega

/-! ## One character -/

section

variable {a b d e : UInt8} {c : Char} {rest : List UInt8}

theorem decodeChars_one (hw : width a = 1) :
    decodeChars (a :: rest) = (decodeChars rest).map (Char.ofNat a.toNat :: ·) := by
  conv => lhs; rw [decodeChars.eq_def]
  simp only [hw]

theorem decodeChars_two (hw : width a = 2) (hc : two a b = some c) :
    decodeChars (a :: b :: rest) = (decodeChars rest).map (c :: ·) := by
  conv => lhs; rw [decodeChars.eq_def]
  simp only [hw, hc]
  cases decodeChars rest <;> rfl

theorem decodeChars_three (hw : width a = 3) (hc : three a b d = some c) :
    decodeChars (a :: b :: d :: rest) = (decodeChars rest).map (c :: ·) := by
  conv => lhs; rw [decodeChars.eq_def]
  simp only [hw, hc]
  cases decodeChars rest <;> rfl

theorem decodeChars_four (hw : width a = 4) (hc : four a b d e = some c) :
    decodeChars (a :: b :: d :: e :: rest) = (decodeChars rest).map (c :: ·) := by
  conv => lhs; rw [decodeChars.eq_def]
  simp only [hw, hc]
  cases decodeChars rest <;> rfl

end

/-- **One character is read from its bytes**, and what follows stays. -/
theorem decodeChars_utf8EncodeChar (c : Char) (rest : List UInt8) :
    decodeChars (String.utf8EncodeChar c ++ rest) = (decodeChars rest).map (c :: ·) := by
  have hmax : c.toNat < 0x110000 := by
    rcases c.valid with h | h
    · exact Nat.lt_trans h (by decide)
    · exact h.2
  have hval : c.val.toNat = c.toNat := rfl
  simp only [String.utf8EncodeChar, hval]
  generalize hn : c.toNat = n at hmax
  -- the continuation bytes hold six bits each
  have hlow := tail_ofNat (Nat.mod_lt n (by decide : 0 < 64))
  have hmid := tail_ofNat (Nat.mod_lt (n / 64) (by decide : 0 < 64))
  have hhigh := tail_ofNat (Nat.mod_lt (n / 4096) (by decide : 0 < 64))
  by_cases h1 : n ≤ 127
  · have hw : width (UInt8.ofNat n) = 1 := by
      simp only [width, UInt8.lt_iff_toNat_lt, UInt8.toNat_ofNat', UInt8.reduceToNat]
      exact if_pos (by omega)
    have hsmall : (UInt8.ofNat n).toNat = c.toNat := by
      simp only [UInt8.toNat_ofNat', hn]
      omega
    rw [if_pos h1, List.singleton_append, decodeChars_one hw, hsmall, Char.ofNat_toNat]
  by_cases h2 : n ≤ 2047
  · rw [if_neg h1, if_pos h2]
    refine decodeChars_two (width_ofNat (by omega) (.inl ⟨rfl, by omega, by omega⟩)) ?_
    simp only [two, hlow, toNat_lead (n / 64 % 32) 192 (by omega),
      Option.bind_eq_bind, Option.bind_some]
    exact scalar_toNat (by omega) (by omega)
  by_cases h3 : n ≤ 65535
  · rw [if_neg h1, if_neg h2, if_pos h3]
    refine decodeChars_three (width_ofNat (by omega) (.inr (.inl ⟨rfl, by omega, by omega⟩))) ?_
    simp only [three, hlow, hmid, toNat_lead (n / 4096 % 16) 224 (by omega),
      Option.bind_eq_bind, Option.bind_some]
    exact scalar_toNat (by omega) (by omega)
  · rw [if_neg h1, if_neg h2, if_neg h3]
    refine decodeChars_four (width_ofNat (by omega) (.inr (.inr ⟨rfl, by omega, by omega⟩))) ?_
    simp only [four, hlow, hmid, hhigh, toNat_lead (n / 262144 % 8) 240 (by omega),
      Option.bind_eq_bind, Option.bind_some]
    exact scalar_toNat (by omega) (by omega)

theorem decodeChars_flatMap (cs : List Char) :
    decodeChars (cs.flatMap String.utf8EncodeChar) = some cs := by
  induction cs with
  | nil => rfl
  | cons c cs ih => rw [List.flatMap_cons, decodeChars_utf8EncodeChar, ih, Option.map_some]

/-- **Every text is read back from its bytes.** -/
theorem decode_encode (s : String) : decode (encode s) = some s := by
  simp only [decode, encode, decodeChars_flatMap, Option.map_some, String.ofList_toList]

/-! ## Cutting at an ASCII character -/

theorem utf8EncodeChar_of_ascii {c : Char} (h : c.toNat < 128) :
    String.utf8EncodeChar c = [UInt8.ofNat c.toNat] := by
  have hval : c.val.toNat = c.toNat := rfl
  rw [String.utf8EncodeChar, hval]
  exact if_pos (Nat.le_of_lt_succ h)

section

variable {a b d e : UInt8} {c : Char} {bytes : List UInt8}

theorem le_of_tail {n : Nat} (h : tail b = some n) : 0x80 ≤ b := by
  unfold tail at h
  split at h
  · rename_i hb
    exact hb.1
  · exact absurd h (by simp)

theorem le_of_two (h : two a b = some c) : 0x80 ≤ b := by
  obtain ⟨n, hn, -⟩ := Option.bind_eq_some_iff.mp h
  exact le_of_tail hn

theorem le_of_three (h : three a b d = some c) : 0x80 ≤ b ∧ 0x80 ≤ d := by
  obtain ⟨n, hn, h⟩ := Option.bind_eq_some_iff.mp h
  obtain ⟨m, hm, -⟩ := Option.bind_eq_some_iff.mp h
  exact ⟨le_of_tail hn, le_of_tail hm⟩

theorem le_of_four (h : four a b d e = some c) : 0x80 ≤ b ∧ 0x80 ≤ d ∧ 0x80 ≤ e := by
  obtain ⟨n, hn, h⟩ := Option.bind_eq_some_iff.mp h
  obtain ⟨m, hm, h⟩ := Option.bind_eq_some_iff.mp h
  obtain ⟨k, hk, -⟩ := Option.bind_eq_some_iff.mp h
  exact ⟨le_of_tail hn, le_of_tail hm, le_of_tail hk⟩

/-- Bytes that can be read start with those of one character, which is read whatever follows. All but
the first of them are no ASCII characters. -/
theorem exists_first (h : (decodeChars (a :: bytes)).isSome) :
    ∃ front back c, bytes = front ++ back ∧ (∀ b ∈ front, 0x80 ≤ b) ∧
      ∀ rest, decodeChars (a :: (front ++ rest)) = (decodeChars rest).map (c :: ·) := by
  rw [decodeChars.eq_def] at h
  simp only at h
  split at h
  · rename_i hw
    exact ⟨[], bytes, _, rfl, by simp, fun rest => decodeChars_one hw⟩
  · rename_i hw
    split at h
    · rename_i b back
      cases hc : two a b with
      | none => simp [hc] at h
      | some c =>
        exact ⟨[b], back, c, rfl, by simpa using le_of_two hc, fun rest => decodeChars_two hw hc⟩
    · exact absurd h (by simp)
  · rename_i hw
    split at h
    · rename_i b d back
      cases hc : three a b d with
      | none => simp [hc] at h
      | some c =>
        exact ⟨[b, d], back, c, rfl, by simpa using le_of_three hc,
          fun rest => decodeChars_three hw hc⟩
    · exact absurd h (by simp)
  · rename_i hw
    split at h
    · rename_i b d e back
      cases hc : four a b d e with
      | none => simp [hc] at h
      | some c =>
        exact ⟨[b, d, e], back, c, rfl, by simpa using le_of_four hc,
          fun rest => decodeChars_four hw hc⟩
    · exact absurd h (by simp)
  · exact absurd h (by simp)

/-- **Bytes that can be read can be read on both sides of an ASCII character.** -/
theorem isSome_of_ascii {before after : List UInt8} (hb : b < 0x80)
    (h : (decodeChars (before ++ b :: after)).isSome) :
    (decodeChars before).isSome ∧ (decodeChars after).isSome := by
  induction hn : before.length using Nat.strongRecOn generalizing before with
  | ind n ih =>
    cases before with
    | nil =>
      rw [List.nil_append, decodeChars_one (if_pos hb), Option.isSome_map] at h
      exact ⟨rfl, h⟩
    | cons a before =>
      rw [List.cons_append] at h
      obtain ⟨front, back, c, heq, hfront, hfirst⟩ := exists_first h
      -- the first character ends before the ASCII character
      obtain ⟨more, rfl, rfl⟩ : ∃ more, before = front ++ more ∧ back = more ++ b :: after := by
        rcases List.append_eq_append_iff.mp heq with ⟨t, rfl, ht⟩ | ⟨t, rfl, rfl⟩
        · cases t with
          | nil => exact ⟨[], by simp, by simpa using ht.symm⟩
          | cons x t =>
            obtain ⟨rfl, -⟩ := List.cons.inj ht
            exact absurd (hfront b (by simp)) (UInt8.not_le.mpr hb)
        · exact ⟨t, rfl, rfl⟩
      rw [heq, hfirst, Option.isSome_map] at h
      have hshorter : more.length < n := by
        rw [← hn, List.length_cons, List.length_append]
        omega
      obtain ⟨hmore, hafter⟩ := ih more.length hshorter h rfl
      rw [hfirst, Option.isSome_map]
      exact ⟨hmore, hafter⟩

end

end RowStream.Utf8
