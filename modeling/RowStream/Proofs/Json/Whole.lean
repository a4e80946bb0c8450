import RowStream.Json.Parser
import RowStream.Proofs.Fallible
import RowStream.Proofs.Number.Integer

/-!
# Integers as JSON texts

The decimal form of an integer is a JSON text. Up to 64 bits its value is the integer (`parse_text`);
beyond them it is a double, or out of the range of doubles, but never an integer of another size
(`of_parse_text`). What carries both is the reader of digits: it keeps the number itself as long as that
fits 64 bits, and from then on only its size.
-/

namespace RowStream.Json

open Integer (Range)

variable {cs : List Char} {d : Digits} {k : Nat}

/-! ## Digits -/

theorem isDigit_eq (c : Char) : isDigit c = c.isDigit := by
  rw [isDigit, Integer.digit?_eq]
  cases c.isDigit <;> rfl

/-- The decimal form of a positive number does not start with a zero. -/
theorem head_toDigits {m : Nat} (hm : 0 < m) : (Nat.toDigits 10 m).head? ≠ some '0' := by
  induction m using Nat.strongRecOn with
  | ind m ih =>
    rw [Nat.toDigits_eq_if (by decide)]
    split
    · rename_i hlt
      have hdigit : ∀ n < 10, 0 < n → [Nat.digitChar n].head? ≠ some '0' := by decide
      exact hdigit m hlt hm
    · rename_i hge
      have hhead := ih (m / 10) (by omega) (by omega)
      obtain ⟨c, cs, hcs⟩ := List.exists_cons_of_ne_nil (@Nat.toDigits_ne_nil (m / 10) 10)
      rw [hcs] at hhead ⊢
      exact hhead

theorem leadsWithZero_toDigits (m : Nat) : leadsWithZero (Nat.toDigits 10 m) = false := by
  rcases Nat.eq_zero_or_pos m with rfl | hm
  · rfl
  · have hhead := head_toDigits hm
    unfold leadsWithZero
    split
    · rename_i hcs
      rw [hcs] at hhead
      exact absurd rfl hhead
    · rfl

/-- Digits of a number that fits are all kept. -/
theorem wholeDigits_of_le (h : ∀ c ∈ cs, c.isDigit = true)
    (hle : Nat.ofDigitChars 10 cs k ≤ maxNat64) :
    wholeDigits ⟨k, 0⟩ false cs = ((⟨Nat.ofDigitChars 10 cs k, 0⟩, false), []) := by
  induction cs generalizing k with
  | nil => rfl
  | cons c cs ih =>
    obtain ⟨hc, hcs⟩ := List.forall_mem_cons.mp h
    have hnext : Nat.ofDigitChars 10 (c :: cs) k =
        Nat.ofDigitChars 10 cs (k * 10 + (c.toNat - 48)) := by
      rw [Nat.ofDigitChars_cons, Nat.mul_comm]
      rfl
    rw [hnext] at hle ⊢
    have hfits : ¬ maxNat64 < k * 10 + (c.toNat - 48) :=
      Nat.not_lt.mpr (Nat.le_trans (Integer.le_ofDigitChars cs _) hle)
    simp only [wholeDigits, Integer.digit?_eq, hc, if_true, Bool.false_or, decide_eq_true_eq,
      if_neg hfits]
    exact ih hcs hle

theorem wholeDigits_full (h : ∀ c ∈ cs, c.isDigit = true) :
    ∃ d', wholeDigits d true cs = ((d', true), []) := by
  induction cs generalizing d with
  | nil => exact ⟨d, rfl⟩
  | cons c cs ih =>
    obtain ⟨hc, hcs⟩ := List.forall_mem_cons.mp h
    simp only [wholeDigits, Integer.digit?_eq, hc, if_true, Bool.true_or]
    exact ih hcs

/-- Of a number that does not fit, the last digits only count. -/
theorem wholeDigits_of_lt (h : ∀ c ∈ cs, c.isDigit = true) (hk : k ≤ maxNat64)
    (hlt : maxNat64 < Nat.ofDigitChars 10 cs k) :
    ∃ d, wholeDigits ⟨k, 0⟩ false cs = ((d, true), []) := by
  induction cs generalizing k with
  | nil => exact absurd hlt (Nat.not_lt.mpr hk)
  | cons c cs ih =>
    obtain ⟨hc, hcs⟩ := List.forall_mem_cons.mp h
    have hnext : Nat.ofDigitChars 10 (c :: cs) k =
        Nat.ofDigitChars 10 cs (k * 10 + (c.toNat - 48)) := by
      rw [Nat.ofDigitChars_cons, Nat.mul_comm]
      rfl
    rw [hnext] at hlt
    simp only [wholeDigits, Integer.digit?_eq, hc, if_true, Bool.false_or, decide_eq_true_eq]
    split
    · exact wholeDigits_full hcs
    · rename_i hfits
      exact ih hcs (Nat.not_lt.mp hfits) hlt

/-! ## Numbers -/

/-- What the decimal form of a number is read as: the number while it fits 64 bits. -/
theorem readNumber_toDigits (negative : Bool) (m : Nat) :
    readNumber negative (Nat.toDigits 10 m) = readWhole negative ⟨m, 0⟩ false [] ∧ m ≤ maxNat64 ∨
      (∃ d, readNumber negative (Nat.toDigits 10 m) = finish negative d []) ∧ maxNat64 < m := by
  have hzero := leadsWithZero_toDigits m
  have hvalue := Nat.ofDigitChars_ten_toDigits (n := m)
  have hall : ∀ c ∈ Nat.toDigits 10 m, c.isDigit = true := fun c hc =>
    Nat.isDigit_of_mem_toDigits (by decide) (by decide) hc
  obtain ⟨c, cs, hcs⟩ := List.exists_cons_of_ne_nil (@Nat.toDigits_ne_nil m 10)
  rw [hcs] at hzero hvalue hall ⊢
  obtain ⟨hc, hrest⟩ := List.forall_mem_cons.mp hall
  have hfirst : Nat.ofDigitChars 10 cs (c.toNat - 48) = m := by
    rwa [Nat.ofDigitChars_cons, Nat.mul_zero, Nat.zero_add] at hvalue
  have hsmall : c.toNat - 48 ≤ maxNat64 := by
    have hle : c.toNat ≤ 57 := (Char.isDigit_iff_toNat.mp hc).2
    rw [maxNat64]
    omega
  rcases Nat.lt_or_ge maxNat64 m with hm | hm
  · obtain ⟨d, hd⟩ := wholeDigits_of_lt hrest hsmall (by rwa [hfirst])
    refine .inr ⟨⟨d, ?_⟩, hm⟩
    simp only [readNumber, Integer.digit?_eq, hc, if_true, hzero, hd, readWhole,
      Bool.false_eq_true, if_false]
  · refine .inl ⟨?_, hm⟩
    have hd := wholeDigits_of_le hrest (by rwa [hfirst])
    rw [hfirst] at hd
    simp only [readNumber, Integer.digit?_eq, hc, if_true, hzero, hd, Bool.false_eq_true, if_false]

/-- A number is an integer, or a double. -/
theorem finish_eq_ok {negative : Bool} {rest rest' : List Char} {x : Number}
    (h : finish negative d rest = .ok (x, rest')) : ∃ y, x = .real y := by
  unfold finish at h
  split at h
  · rename_i y _
    exact ⟨y, (congrArg Prod.fst (Except.ok.inj h)).symm⟩
  · exact nomatch h

theorem readWhole_true {m : Nat} {rest : List Char} :
    readWhole true ⟨m, 0⟩ false rest =
      if m = 0 ∨ 9223372036854775808 < m then
        .ok (.real (Double.ofMagnitude true (Double.ofInt m).magnitude), rest)
      else .ok (.int (-(m : Int)), rest) := rfl

theorem readWhole_false {m : Nat} {rest : List Char} :
    readWhole false ⟨m, 0⟩ false rest = .ok (.int m, rest) := rfl

/-- An integer of 64 bits is read as itself. -/
theorem readNumber_of_has {n : Int} (hn : Range.int64.has n = true) :
    readNumber (decide (n < 0)) (Nat.toDigits 10 n.natAbs) = .ok (.int n, []) := by
  obtain ⟨hle, hge⟩ := Integer.Range.has_iff.mp hn
  simp only [Range.int64] at hle hge
  rcases readNumber_toDigits (decide (n < 0)) n.natAbs with ⟨hread, -⟩ | ⟨-, hlt⟩
  · rw [hread]
    by_cases hneg : n < 0
    · rw [decide_eq_true hneg, readWhole_true, if_neg (by omega),
        show -(n.natAbs : Int) = n by omega]
    · rw [decide_eq_false hneg, readWhole_false, show (n.natAbs : Int) = n by omega]
  · rw [maxNat64] at hlt
    omega

/-- A wider integer is read as none of 64 bits. -/
theorem readNumber_of_wide {n : Int} (hn : Range.int64.has n = false) {x : Number}
    {rest : List Char}
    (h : readNumber (decide (n < 0)) (Nat.toDigits 10 n.natAbs) = .ok (x, rest)) :
    ∀ m, x = .int m → Range.int64.has m = false := by
  rintro m rfl
  have hout : ¬ (-9223372036854775808 ≤ n ∧ n ≤ 9223372036854775807) := by
    rw [Bool.eq_false_iff, ne_eq, Integer.Range.has_iff] at hn
    exact hn
  rcases readNumber_toDigits (decide (n < 0)) n.natAbs with ⟨hread, -⟩ | ⟨⟨d, hread⟩, -⟩
  · rw [hread] at h
    by_cases hneg : n < 0
    · rw [decide_eq_true hneg, readWhole_true, if_pos (by omega)] at h
      exact nomatch h
    · rw [decide_eq_false hneg, readWhole_false, show (n.natAbs : Int) = n by omega] at h
      obtain ⟨rfl, -⟩ : n = m ∧ rest = [] := by simpa using h
      exact hn
  · rw [hread] at h
    obtain ⟨y, hy⟩ := finish_eq_ok h
    exact nomatch hy

/-! ## Texts -/

theorem parse_eq_ok {s : String} {v : Json} : parse s = .ok v ↔
    ∃ rest, parseStart s = .ok (v, rest) ∧ parseEnd s rest = .ok () := by
  simp only [parse, bind_eq_ok]
  constructor
  · rintro ⟨⟨v', rest⟩, hstart, _, hend, heq⟩
    obtain rfl := pure_eq_ok.mp heq
    exact ⟨rest, hstart, hend⟩
  · rintro ⟨rest, hstart, hend⟩
    exact ⟨(v, rest), hstart, (), hend, rfl⟩

/-- What starts with a digit is a number. -/
theorem readValue_digit {c : Char} (hc : c.isDigit = true) (steps depth : Nat) :
    readValue (steps + 1) depth (c :: cs) =
      (readNumber false (c :: cs)).map fun r => (.number r.1, r.2) := by
  have hblank : isBlank c = false := by
    have hle : 48 ≤ c.toNat := (Char.isDigit_iff_toNat.mp hc).1
    simp only [isBlank, Bool.or_eq_false_iff, beq_eq_false_iff_ne]
    refine ⟨⟨⟨?_, ?_⟩, ?_⟩, ?_⟩ <;> (rintro rfl; exact absurd hle (by decide))
  have hskip : skipBlanks (c :: cs) = c :: cs := List.dropWhile_cons_of_neg (by simp [hblank])
  simp only [readValue, hskip]
  split
  case h_1 heq => exact nomatch heq
  case h_9 heq =>
    obtain ⟨rfl, rfl⟩ := List.cons.inj heq
    rw [isDigit_eq, hc, if_pos rfl]
    cases readNumber false _ <;> rfl
  all_goals
    rename_i heq
    obtain ⟨rfl, -⟩ := List.cons.inj heq
    exact absurd hc (by decide)

theorem readValue_minus (steps depth : Nat) :
    readValue (steps + 1) depth ('-' :: cs) =
      (readNumber true cs).map fun r => (.number r.1, r.2) := by
  have hblank : skipBlanks ('-' :: cs) = '-' :: cs := rfl
  simp only [readValue, hblank]
  cases readNumber true cs <;> rfl

/-- The decimal form of an integer is read as a number. -/
theorem readValue_text (n : Int) (steps depth : Nat) :
    readValue (steps + 1) depth (Integer.text n).toList =
      (readNumber (decide (n < 0)) (Nat.toDigits 10 n.natAbs)).map fun r => (.number r.1, r.2) := by
  unfold Integer.text Integer.natText
  split
  · rename_i hneg
    have hchars : ("-" ++ String.ofList (Nat.toDigits 10 n.natAbs)).toList =
        '-' :: Nat.toDigits 10 n.natAbs := by
      simp
    rw [hchars, decide_eq_true hneg]
    exact readValue_minus steps depth
  · rename_i hneg
    rw [String.toList_ofList, decide_eq_false hneg]
    obtain ⟨c, cs, hcs⟩ := List.exists_cons_of_ne_nil (@Nat.toDigits_ne_nil n.natAbs 10)
    have hc : c ∈ Nat.toDigits 10 n.natAbs := hcs ▸ List.mem_cons_self
    rw [hcs]
    exact readValue_digit (Nat.isDigit_of_mem_toDigits (by decide) (by decide) hc) steps depth

/-- **The decimal form of an integer of 64 bits is its JSON text.** -/
theorem parse_text {n : Int} (hn : Range.int64.has n = true) :
    parse (Integer.text n) = .ok (.number (.int n)) := by
  refine parse_eq_ok.mpr ⟨[], ?_, rfl⟩
  rw [parseStart, enough, readValue_text, readNumber_of_has hn]
  rfl

/-- **That of a wider one is the text of no integer of 64 bits.** -/
theorem of_parse_text {n : Int} {v : Json} (hn : Range.int64.has n = false)
    (h : parse (Integer.text n) = .ok v) :
    ∃ x, v = .number x ∧ ∀ m, x = .int m → Range.int64.has m = false := by
  obtain ⟨rest, hstart, -⟩ := parse_eq_ok.mp h
  rw [parseStart, enough, readValue_text] at hstart
  cases hread : readNumber (decide (n < 0)) (Nat.toDigits 10 n.natAbs) with
  | error f =>
    rw [hread] at hstart
    exact nomatch hstart
  | ok r =>
    rw [hread] at hstart
    exact ⟨r.1, (congrArg Prod.fst (Except.ok.inj hstart)).symm, readNumber_of_wide hn hread⟩

end RowStream.Json
