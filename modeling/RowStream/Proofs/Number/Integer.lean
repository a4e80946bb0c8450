import Mathlib.Data.List.Basic
import RowStream.Number.Integer
import RowStream.Proofs.Text.Blank

/-!
# Texts of integers

Which text denotes which integer is a matter of its sign and digits alone (`Denotes`). A range that
reaches below zero reads exactly the texts that denote one of its integers, and reads them as that
integer: the limits cut nothing else off, however many zeros stand in front. Every integer has a decimal
form, which may be written with more zeros, a plus sign and blanks around (`Spells`), and denotes the
integer however it is written.

* `readChars_eq_ok`: what is read.
* `Spells.denotes`: all spellings of an integer.
* `Spells.readInt64`, `readInt64_of_wide`: integers inside and outside 64 bits.
-/

namespace RowStream.Integer

variable {r : Range} {cs : List Char} {n : Int}

theorem Range.has_iff : r.has n = true ↔ r.least ≤ n ∧ n ≤ r.greatest := by
  rw [Range.has, Bool.and_eq_true, decide_eq_true_eq, decide_eq_true_eq]

/-! ## Digits -/

theorem digit?_eq (c : Char) : digit? c = if c.isDigit then some (c.toNat - 48) else none := by
  have h : ('0' ≤ c ∧ c ≤ '9') ↔ c.isDigit = true := by
    simp [Char.isDigit, Char.le_def]
  unfold digit?
  simp only [h]

/-- Digits to the right of a number make it no smaller. -/
theorem le_ofDigitChars (cs : List Char) (k : Nat) : k ≤ Nat.ofDigitChars 10 cs k := by
  rw [Nat.ofDigitChars_eq_ofDigitChars_zero]
  exact Nat.le_trans (Nat.le_mul_of_pos_left k (Nat.pow_pos (by decide))) (Nat.le_add_right _ _)

/-- Digits are added as long as the number stays in the range, and the number never gets smaller. -/
theorem readUp_eq_ok {k : Nat} (h : (k : Int) ≤ r.greatest) : readUp r k cs = .ok n ↔
    (∀ c ∈ cs, c.isDigit = true) ∧ n = Nat.ofDigitChars 10 cs k ∧ n ≤ r.greatest := by
  induction cs generalizing k with
  | nil =>
    simp only [readUp, Except.ok.injEq, Nat.ofDigitChars_nil, List.not_mem_nil, false_implies,
      implies_true, true_and]
    constructor
    · rintro rfl
      exact ⟨rfl, h⟩
    · exact fun heq => heq.1.symm
  | cons c cs ih =>
    rw [readUp, digit?_eq, List.forall_mem_cons, Nat.ofDigitChars_cons]
    cases hc : c.isDigit with
    | false => simp
    | true =>
      have hnext : (k : Int) * 10 + (c.toNat - 48 : Nat) = (10 * k + (c.toNat - 48) : Nat) := by
        omega
      simp only [if_true, true_and, hnext]
      split
      · rename_i hle
        exact ih hle
      · rename_i hgt
        refine iff_of_false (by simp) ?_
        rintro ⟨-, rfl, hle⟩
        have hgrown := le_ofDigitChars cs (10 * k + (c.toNat - 48))
        exact hgt (by simp only [Char.reduceToNat] at hle; omega)

/-- To read downwards is to read upwards in the range on the other side of zero. -/
theorem readDown_eq_ok {k : Nat} :
    readDown r (-k) cs = .ok n ↔ readUp ⟨0, -r.least⟩ k cs = .ok (-n) := by
  induction cs generalizing k with
  | nil =>
    simp only [readDown, readUp, Except.ok.injEq]
    omega
  | cons c cs ih =>
    rw [readDown, readUp]
    cases digit? c with
    | none => simp
    | some d =>
      have hdown : -(k : Int) * 10 - d = -((k * 10 + d : Nat) : Int) := by omega
      have hup : (k : Int) * 10 + d = (k * 10 + d : Nat) := by omega
      simp only [hdown, hup]
      split
      · rename_i hle
        rw [if_pos (by omega)]
        exact ih
      · rename_i hgt
        rw [if_neg (by omega)]
        simp

/-! ## What a text denotes -/

/-- At least one digit and nothing else. -/
def Digits (cs : List Char) : Prop := cs ≠ [] ∧ ∀ c ∈ cs, c.isDigit = true

/-- The characters are digits, with a sign in front or none, that write the integer. -/
inductive Denotes : List Char → Int → Prop
  | plain {ds : List Char} (digits : Digits ds) : Denotes ds (Nat.ofDigitChars 10 ds 0 : Nat)
  | plus {ds : List Char} (digits : Digits ds) : Denotes ('+' :: ds) (Nat.ofDigitChars 10 ds 0 : Nat)
  | minus {ds : List Char} (digits : Digits ds) : Denotes ('-' :: ds) (-(Nat.ofDigitChars 10 ds 0 : Nat))

theorem digitChar_ne_zero {d : Nat} (hd : d ≠ 0) (hlt : d < 10) : d.digitChar ≠ '0' := by
  intro h
  have hvalue := Nat.toNat_digitChar_sub_48_of_lt_ten hlt
  rw [h] at hvalue
  exact hd hvalue.symm

/-- The digits of a number other than zero do not start with a zero. -/
theorem head_toDigits (d : Nat) (hd : d ≠ 0) : (Nat.toDigits 10 d).head? ≠ some '0' := by
  rcases Nat.lt_or_ge d 10 with hlt | hge
  · rw [Nat.toDigits_of_lt_base hlt]
    simpa using digitChar_ne_zero hd hlt
  · rw [Nat.toDigits_of_base_le (by decide) hge, List.head?_append_of_ne_nil _ Nat.toDigits_ne_nil]
    exact head_toDigits (d / 10) (by omega)

theorem digits_toDigits (d : Nat) : Digits (Nat.toDigits 10 d) :=
  ⟨Nat.toDigits_ne_nil, fun _ => Nat.isDigit_of_mem_toDigits (by decide) (by decide)⟩

theorem isDigit_of_mem_zeros {n : Nat} : ∀ c ∈ List.replicate n '0', c.isDigit = true :=
  fun _ hc => List.eq_of_mem_replicate hc ▸ rfl

theorem ne_sign {c : Char} (h : c.isDigit = true) : c ≠ '+' ∧ c ≠ '-' := by
  constructor <;> (rintro rfl; exact absurd h (by decide))

/-- A text denotes one integer. -/
theorem Denotes.unique {m : Int} (h : Denotes cs n) (h' : Denotes cs m) : n = m := by
  have hno {c : Char} {ds : List Char} (hd : Digits (c :: ds)) : c ≠ '+' ∧ c ≠ '-' :=
    ne_sign (hd.2 c List.mem_cons_self)
  cases h with
  | plain digits =>
    cases h' with
    | plain => rfl
    | plus => exact absurd rfl (hno digits).1
    | minus => exact absurd rfl (hno digits).2
  | plus =>
    cases h' with
    | plain digits' => exact absurd rfl (hno digits').1
    | plus => rfl
  | minus =>
    cases h' with
    | plain digits' => exact absurd rfl (hno digits').2
    | minus => rfl

theorem readChars_plain {c : Char} (h : c.isDigit = true) :
    readChars r (c :: cs) = readUp r 0 (c :: cs) := by
  obtain ⟨hplus, hminus⟩ := ne_sign h
  unfold readChars
  split <;> simp_all

theorem readChars_plus (h : cs ≠ []) : readChars r ('+' :: cs) = readUp r 0 cs := by
  obtain ⟨c, cs, rfl⟩ := List.exists_cons_of_ne_nil h
  rfl

theorem readChars_minus (h : cs ≠ []) (hr : r.least < 0) :
    readChars r ('-' :: cs) = readDown r 0 cs := by
  obtain ⟨c, cs, rfl⟩ := List.exists_cons_of_ne_nil h
  exact if_pos hr

theorem readUp_zero_eq_ok (h : 0 ≤ r.greatest) : readUp r 0 cs = .ok n ↔
    (∀ c ∈ cs, c.isDigit = true) ∧ n = Nat.ofDigitChars 10 cs 0 ∧ n ≤ r.greatest :=
  readUp_eq_ok (k := 0) h

theorem readDown_zero_eq_ok (h : r.least ≤ 0) : readDown r 0 cs = .ok n ↔
    (∀ c ∈ cs, c.isDigit = true) ∧ n = -(Nat.ofDigitChars 10 cs 0 : Nat) ∧ r.least ≤ n := by
  have hread : readDown r (-(0 : Nat)) cs = .ok n ↔ _ :=
    readDown_eq_ok.trans (readUp_eq_ok (Int.neg_nonneg.mpr h))
  rw [Int.natCast_zero, Int.neg_zero] at hread
  rw [hread]
  refine and_congr_right fun _ => ?_
  dsimp only
  omega

/-- **What is read**: the texts that denote an integer of the range, as that integer. -/
theorem readChars_eq_ok (hleast : r.least < 0) (hgreatest : 0 ≤ r.greatest) :
    readChars r cs = .ok n ↔ Denotes cs n ∧ r.has n = true := by
  rw [Range.has_iff]
  constructor
  · intro h
    unfold readChars at h
    split at h
    case h_1 | h_2 | h_3 => exact absurd h (by simp)
    case h_4 ds hne =>
      obtain ⟨hdigits, rfl, hle⟩ := (readUp_zero_eq_ok hgreatest).mp h
      exact ⟨.plus ⟨hne, hdigits⟩, by omega, hle⟩
    case h_5 ds hne =>
      rw [if_pos hleast] at h
      obtain ⟨hdigits, rfl, hle⟩ := (readDown_zero_eq_ok (by omega)).mp h
      exact ⟨.minus ⟨hne, hdigits⟩, hle, by omega⟩
    case h_6 hne _ _ _ _ =>
      obtain ⟨hdigits, rfl, hle⟩ := (readUp_zero_eq_ok hgreatest).mp h
      exact ⟨.plain ⟨hne, hdigits⟩, by omega, hle⟩
  · rintro ⟨hdenotes, hle, hge⟩
    cases hdenotes with
    | plain digits =>
      obtain ⟨c, cs, rfl⟩ := List.exists_cons_of_ne_nil digits.1
      rw [readChars_plain (digits.2 c List.mem_cons_self), readUp_zero_eq_ok hgreatest]
      exact ⟨digits.2, rfl, hge⟩
    | plus digits =>
      rw [readChars_plus digits.1, readUp_zero_eq_ok hgreatest]
      exact ⟨digits.2, rfl, hge⟩
    | minus digits =>
      rw [readChars_minus digits.1 hleast, readDown_zero_eq_ok (by omega)]
      exact ⟨digits.2, rfl, hle⟩

theorem toInt_ofInt32 (h : Range.int32.has n = true) : (Int32.ofInt n).toInt = n := by
  obtain ⟨hle, hge⟩ := Range.has_iff.mp h
  exact Int32.toInt_ofInt_of_le hle (by simp only [Range.int32] at hge; omega)

theorem toInt_ofInt64 (h : Range.int64.has n = true) : (Int64.ofInt n).toInt = n := by
  obtain ⟨hle, hge⟩ := Range.has_iff.mp h
  exact Int64.toInt_ofInt_of_le hle (by simp only [Range.int64] at hge; omega)

theorem has_toInt (n : Int64) : Range.int64.has n.toInt = true := by
  have hle := n.le_toInt
  have hlt := n.toInt_lt
  rw [Range.has_iff, Range.int64]
  dsimp only
  omega

/-- The 64-bit integers that texts are read as. -/
theorem readInt64_eq_some {s : String} {n : Int64} :
    readInt64 s = some n ↔ Denotes s.toList n.toInt := by
  have hread {m : Int} : read .int64 s = .ok m ↔ Denotes s.toList m ∧ Range.int64.has m = true :=
    readChars_eq_ok (by decide) (by decide)
  unfold readInt64
  constructor
  · intro h
    split at h
    · rename_i m hm
      obtain ⟨hdenotes, hrange⟩ := hread.mp hm
      rwa [← Option.some.inj h, toInt_ofInt64 hrange]
    · exact nomatch h
  · intro h
    rw [hread.mpr ⟨h, has_toInt n⟩]
    exact congrArg some (Int64.ofInt_toInt n)

/-! ## Spellings -/

/-- The signs that may stand in front of the digits of an integer. -/
def signs (n : Int) : List (List Char) := if n < 0 then [['-']] else [[], ['+']]

/-- The text is the decimal form of the integer, with zeros in front of the digits, a plus sign if it is
not negative, and blanks around, as one likes. -/
inductive Spells (n : Int) : String → Prop
  | intro {before after sign : List Char} (zeros : Nat)
      (hbefore : ∀ c ∈ before, Text.isBlank c = true) (hafter : ∀ c ∈ after, Text.isBlank c = true)
      (hsign : sign ∈ signs n) :
      Spells n (String.ofList
        (before ++ ((sign ++ (List.replicate zeros '0' ++ Nat.toDigits 10 n.natAbs)) ++ after)))

/-- The digits of an integer, with zeros in front. -/
theorem digits_padded (zeros m : Nat) : Digits (List.replicate zeros '0' ++ Nat.toDigits 10 m) := by
  refine ⟨by simp, fun c hc => ?_⟩
  rcases List.mem_append.mp hc with hc | hc
  · exact isDigit_of_mem_zeros c hc
  · exact (digits_toDigits m).2 c hc

theorem ofDigitChars_padded (zeros m : Nat) :
    Nat.ofDigitChars 10 (List.replicate zeros '0' ++ Nat.toDigits 10 m) 0 = m := by
  rw [Nat.ofDigitChars_append, Nat.ofDigitChars_replicate_zero, Nat.mul_zero,
    Nat.ofDigitChars_ten_toDigits]

/-- Zeros in front and a sign change nothing. -/
theorem denotes_signed (zeros : Nat) {sign : List Char} (h : sign ∈ signs n) :
    Denotes (sign ++ (List.replicate zeros '0' ++ Nat.toDigits 10 n.natAbs)) n := by
  have hdigits := digits_padded zeros n.natAbs
  have hvalue := ofDigitChars_padded zeros n.natAbs
  unfold signs at h
  split at h
  · obtain rfl := List.mem_singleton.mp h
    have hminus := Denotes.minus hdigits
    rwa [hvalue, show -(n.natAbs : Int) = n by omega] at hminus
  · have habs : (n.natAbs : Int) = n := by omega
    rcases List.mem_pair.mp h with rfl | rfl
    · have hplain := Denotes.plain hdigits
      rwa [hvalue, habs] at hplain
    · have hplus := Denotes.plus hdigits
      rwa [hvalue, habs] at hplus

/-- The decimal form of an integer denotes it. -/
theorem denotes_text (n : Int) : Denotes (text n).toList n := by
  unfold text natText
  split
  · rename_i hn
    have hminus : ['-'] ∈ signs n := by simp [signs, hn]
    simpa using denotes_signed 0 hminus
  · rename_i hn
    have hplain : [] ∈ signs n := by simp [signs, hn]
    simpa using denotes_signed 0 hplain

theorem isBlank_of_isDigit {c : Char} (h : c.isDigit = true) : Text.isBlank c = false := by
  have hle : 48 ≤ c.toNat := (Char.isDigit_iff_toNat.mp h).1
  have hge : c.toNat ≤ 57 := (Char.isDigit_iff_toNat.mp h).2
  simp only [Text.isBlank, Bool.or_eq_false_iff, Bool.and_eq_false_iff, beq_eq_false_iff_ne,
    decide_eq_false_iff_not]
  omega

theorem isBlank_of_mem_signs {sign : List Char} (h : sign ∈ signs n) :
    ∀ c ∈ sign, Text.isBlank c = false := by
  have hplus : Text.isBlank '+' = false := by decide
  have hminus : Text.isBlank '-' = false := by decide
  unfold signs at h
  split at h
  · obtain rfl := List.mem_singleton.mp h
    simpa using hminus
  · rcases List.mem_pair.mp h with rfl | rfl
    · simp
    · simpa using hplus

/-- **However an integer is spelled**, the text denotes it. -/
theorem Spells.denotes {s : String} (h : Spells n s) : Denotes (Text.trim s).toList n := by
  obtain ⟨zeros, hbefore, hafter, hsign⟩ := h
  have hdigits := digits_padded zeros n.natAbs
  rw [Text.trim_surrounded hbefore hafter (List.append_ne_nil_of_right_ne_nil _ hdigits.1),
    String.toList_ofList]
  · exact denotes_signed zeros hsign
  · intro c hc
    rcases List.mem_append.mp hc with hc | hc
    · exact isBlank_of_mem_signs hsign c hc
    · exact isBlank_of_isDigit (hdigits.2 c hc)

/-- The decimal form of an integer is a spelling of it. -/
theorem spells_text (n : Int) : Spells n (text n) := by
  have hnone : ∀ c ∈ ([] : List Char), Text.isBlank c = true := by simp
  unfold text natText
  split
  · rename_i hn
    have hminus : ['-'] ∈ signs n := by simp [signs, hn]
    simpa [String.ofList_cons] using Spells.intro 0 hnone hnone hminus
  · rename_i hn
    have hplain : [] ∈ signs n := by simp [signs, hn]
    simpa using Spells.intro 0 hnone hnone hplain

/-- The spellings of an integer of 64 bits are read as that integer. -/
theorem Spells.readInt64 {n : Int64} {s : String} (h : Spells n.toInt s) :
    readInt64 (Text.trim s) = some n :=
  readInt64_eq_some.mpr h.denotes

/-- A text that denotes an integer of more than 64 bits is read as none. -/
theorem readInt64_of_wide {s : String} (h : Denotes s.toList n) (hn : Range.int64.has n = false) :
    Integer.readInt64 s = none := by
  rw [Option.eq_none_iff_forall_ne_some]
  intro m hm
  have heq := h.unique (readInt64_eq_some.mp hm)
  rw [heq, has_toInt] at hn
  exact nomatch hn

end RowStream.Integer
