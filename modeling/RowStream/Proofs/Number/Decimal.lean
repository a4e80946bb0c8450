import Mathlib.Data.List.TakeWhile
import RowStream.Number.Decimal
import RowStream.Proofs.Number.Integer
import RowStream.Proofs.Number.Nearest

/-!
# Texts of decimal numbers

Which texts are decimal numbers is said by a grammar (`Numeral`): a sign or none, and digits with an
optional point and an optional exponent, or a word for an infinity or for no number. Digits stand before
the point, or after it, or on both sides. What such a text writes is said by the same grammar with the
value beside it (`Writes`). The reader takes what it can from the left and never goes back, but it misses
no numeral: nothing that follows digits in the grammar is a digit, and no numeral without a sign starts
with one.

A number of many digits is not worked out when all doubles are closer to zero or further from it, and
rounds all the same (`rounds_quotient`).

* `readExponent_eq_some`, `parseUnsigned_eq_some`, `parse_eq_some`: the parts of a text, and the text.
* `read_isSome`: the texts that are read.
* `nearest_toDouble`, `read_eq_some`: the double that a text is read as.
-/

namespace RowStream.Decimal

open Binary (Format double)
open Integer (Denotes Digits digit?_eq)

variable {cs ds rest : List Char} {c : Char} {n e : Int} {m : Nat} {v : Value} {negative : Bool}

/-- The signs that may stand in front of a number and of an exponent. -/
def signs : List (List Char) := [[], ['+'], ['-']]

/-- No exponent, or a letter for it with a sign or none and digits. -/
inductive Exponent : List Char → Prop
  | absent : Exponent []
  | present {e : Char} {sign ds : List Char} (letter : e = 'e' ∨ e = 'E') (signed : sign ∈ signs)
      (digits : Digits ds) : Exponent (e :: (sign ++ ds))

/-- Digits, with a point among or around them or without, and an exponent. -/
inductive Number : List Char → Prop
  | whole {ds x : List Char} (digits : Digits ds) (exponent : Exponent x) : Number (ds ++ x)
  | point {ds ps x : List Char} (before : ∀ c ∈ ds, c.isDigit = true)
      (after : ∀ c ∈ ps, c.isDigit = true) (some : ds ≠ [] ∨ ps ≠ []) (exponent : Exponent x) :
      Number (ds ++ '.' :: (ps ++ x))

/-- A word for an infinity or for no number, in any letter case. -/
def Word (cs : List Char) : Prop :=
  String.ofList (cs.map Text.lowerChar) ∈ ["inf", "infinity", "nan"]

/-- A number or a word, with a sign or without. -/
inductive Numeral : List Char → Prop
  | intro {sign cs : List Char} (signed : sign ∈ signs) (unsigned : Number cs ∨ Word cs) :
      Numeral (sign ++ cs)

/-! ## What texts write -/

/-- The exponent that is written: none at all is exponent 0. -/
inductive ExponentOf : List Char → Int → Prop
  | absent : ExponentOf [] 0
  | present {e : Char} {cs : List Char} {n : Int} (letter : e = 'e' ∨ e = 'E')
      (denotes : Denotes cs n) : ExponentOf (e :: cs) n

/-- The text writes `m * 10 ^ e`. -/
inductive NumberOf : List Char → Nat → Int → Prop
  | whole {ds x : List Char} {e : Int} (digits : Digits ds) (exponent : ExponentOf x e) :
      NumberOf (ds ++ x) (Nat.ofDigitChars 10 ds 0) e
  | point {ds ps x : List Char} {e : Int} (before : ∀ c ∈ ds, c.isDigit = true)
      (after : ∀ c ∈ ps, c.isDigit = true) (some : ds ≠ [] ∨ ps ≠ []) (exponent : ExponentOf x e) :
      NumberOf (ds ++ '.' :: (ps ++ x)) (Nat.ofDigitChars 10 (ds ++ ps) 0) (e - ps.length)

/-- The value that a number or a word is, behind a sign or none. -/
inductive UnsignedOf (negative : Bool) : List Char → Value → Prop
  | number {cs : List Char} {m : Nat} {e : Int} (number : NumberOf cs m e) :
      UnsignedOf negative cs (.finite negative m e)
  | infinity {cs : List Char} (word : String.ofList (cs.map Text.lowerChar) = "inf" ∨
      String.ofList (cs.map Text.lowerChar) = "infinity") : UnsignedOf negative cs (.infinity negative)
  | nan {cs : List Char} (word : String.ofList (cs.map Text.lowerChar) = "nan") :
      UnsignedOf negative cs (.nan negative)

/-- The value that a text writes. -/
inductive Writes : List Char → Value → Prop
  | intro {sign cs : List Char} {v : Value} (signed : sign ∈ signs)
      (unsigned : UnsignedOf (decide (sign = ['-'])) cs v) : Writes (sign ++ cs) v

/-! ## Digits -/

/-- The leading digits of a text, and what is left of it. -/
theorem spanDigits_eq (cs : List Char) : spanDigits cs =
    ((cs.takeWhile Char.isDigit).map fun c => c.toNat - 48, cs.dropWhile Char.isDigit) := by
  induction cs with
  | nil => rfl
  | cons c cs ih =>
    rw [spanDigits, digit?_eq]
    cases hc : c.isDigit with
    | false => simp [hc]
    | true => simp [hc, ih]

/-- Digits are worth what they are worth to the library. -/
theorem ofDigits_map (cs : List Char) :
    ofDigits (cs.map fun c => c.toNat - 48) = Nat.ofDigitChars 10 cs 0 := by
  rw [ofDigits, List.foldl_map, Nat.ofDigitChars_eq_foldl]
  simp only [Nat.mul_comm, Char.reduceToNat]

/-- Digits are taken up to what starts with none. -/
theorem takeWhile_digits (hds : ∀ c ∈ ds, c.isDigit = true)
    (hrest : ∀ c ∈ rest.head?, c.isDigit = false) :
    (ds ++ rest).takeWhile Char.isDigit = ds ∧ (ds ++ rest).dropWhile Char.isDigit = rest := by
  rw [List.takeWhile_append_of_pos hds, List.dropWhile_append_of_pos hds]
  cases rest with
  | nil => simp
  | cons c rest => simp [hrest c rfl]

theorem isDigit_of_mem_takeWhile (cs : List Char) :
    ∀ c ∈ cs.takeWhile Char.isDigit, c.isDigit = true :=
  fun _ => List.mem_takeWhile_imp

/-- Nothing but digits. -/
theorem digits_iff : Digits cs ↔ cs.takeWhile Char.isDigit ≠ [] ∧ cs.dropWhile Char.isDigit = [] := by
  rw [List.dropWhile_eq_nil_iff, Digits]
  refine and_congr_left fun hall => ?_
  rw [List.takeWhile_eq_self_iff.mpr hall]

/-! ## Signs -/

/-- A text without a sign in front. -/
def dropSign : List Char → List Char
  | '-' :: cs => cs
  | '+' :: cs => cs
  | cs => cs

theorem dropSign_of_ne (hminus : ∀ ds, cs ≠ '-' :: ds) (hplus : ∀ ds, cs ≠ '+' :: ds) :
    dropSign cs = cs := by
  unfold dropSign
  split
  · exact absurd rfl (hminus _)
  · exact absurd rfl (hplus _)
  · rfl

theorem dropSign_eq_self (h : ∀ c ∈ cs.head?, c ≠ '+' ∧ c ≠ '-') : dropSign cs = cs := by
  refine dropSign_of_ne ?_ ?_ <;> rintro ds rfl
  · exact (h '-' rfl).2 rfl
  · exact (h '+' rfl).1 rfl

/-- What holds of a text without its sign holds of one that follows a sign, if it holds of none that
starts with one. -/
theorem dropSign_iff {P : List Char → Prop} (hP : ∀ cs, P cs → dropSign cs = cs) :
    P (dropSign cs) ↔ ∃ sign ∈ signs, ∃ ds, cs = sign ++ ds ∧ P ds := by
  constructor
  · intro h
    unfold dropSign at h
    split at h
    · exact ⟨['-'], by decide, _, rfl, h⟩
    · exact ⟨['+'], by decide, _, rfl, h⟩
    · exact ⟨[], by decide, _, rfl, h⟩
  · rintro ⟨sign, hsign, ds, rfl, h⟩
    simp only [signs, List.mem_cons, List.not_mem_nil, or_false] at hsign
    rcases hsign with rfl | rfl | rfl
    · rwa [List.nil_append, hP ds h]
    · exact h
    · exact h

theorem dropSign_of_digits (h : Digits cs) : dropSign cs = cs := by
  refine dropSign_eq_self fun c hc => Integer.ne_sign (h.2 c ?_)
  exact List.mem_of_mem_head? hc

/-! ## Exponents -/

/-- What a sign and digits denote. -/
theorem denotes_iff : Denotes cs n ↔ Digits (dropSign cs) ∧
    n = if cs.head? = some '-' then -(Nat.ofDigitChars 10 (dropSign cs) 0 : Int)
      else Nat.ofDigitChars 10 (dropSign cs) 0 := by
  constructor
  · intro h
    cases h with
    | plain digits =>
      have hhead : cs.head? ≠ some '-' := fun hhead =>
        (Integer.ne_sign (digits.2 '-' (List.mem_of_mem_head? hhead))).2 rfl
      rw [dropSign_of_digits digits, if_neg hhead]
      exact ⟨digits, rfl⟩
    | plus digits => exact ⟨digits, by simp [dropSign]⟩
    | minus digits => exact ⟨digits, by simp [dropSign]⟩
  · rintro ⟨digits, rfl⟩
    unfold dropSign at digits ⊢
    split at digits
    · simpa using Denotes.minus digits
    · simpa using Denotes.plus digits
    · rename_i hminus _
      have hhead : cs.head? ≠ some '-' := fun hhead => by
        obtain ⟨ds, rfl⟩ := List.head?_eq_some_iff.mp hhead
        exact hminus ds rfl
      rw [if_neg hhead]
      exact .plain digits

/-- Digits to the end of the text are read as the number that they write. -/
theorem readDigits_eq_some (negative : Bool) :
    (match spanDigits ds with
      | ([], _) => none
      | (ns, []) => some (if negative then -(ofDigits ns : Int) else ofDigits ns)
      | _ => none) = some n ↔ Digits ds ∧
      n = if negative then -(Nat.ofDigitChars 10 ds 0 : Int) else Nat.ofDigitChars 10 ds 0 := by
  rw [spanDigits_eq, digits_iff]
  cases htake : ds.takeWhile Char.isDigit with
  | nil => simp
  | cons d ts =>
    cases hdrop : ds.dropWhile Char.isDigit with
    | nil =>
      obtain rfl : ds = d :: ts := by
        rw [← List.takeWhile_append_dropWhile (p := Char.isDigit) (l := ds), htake, hdrop,
          List.append_nil]
      change some (if negative then -(ofDigits (List.map _ (d :: ts)) : Int) else
        ofDigits (List.map _ (d :: ts))) = some n ↔ _
      rw [ofDigits_map, Option.some.injEq, and_iff_right ⟨List.cons_ne_nil d ts, rfl⟩]
      exact eq_comm
    | cons x xs => simp

theorem readExponent_cons (h : c = 'e' ∨ c = 'E') :
    readExponent (c :: cs) = some n ↔ Denotes cs n := by
  rw [denotes_iff]
  unfold dropSign
  split
  case h_1 ds =>
    rw [readExponent, if_pos h]
    exact readDigits_eq_some true
  case h_2 ds =>
    rw [readExponent, if_pos h]
    exact readDigits_eq_some false
  case h_3 hminus hplus =>
    have hhead : cs.head? ≠ some '-' := fun hhead => by
      obtain ⟨ds, rfl⟩ := List.head?_eq_some_iff.mp hhead
      exact hminus ds rfl
    rw [readExponent, if_pos h, if_neg hhead]
    · exact readDigits_eq_some false
    · exact hminus
    · exact hplus

/-- **Exponents** are read to the end of the text. -/
theorem readExponent_eq_some : readExponent cs = some n ↔ ExponentOf cs n := by
  constructor
  · intro h
    cases cs with
    | nil =>
      obtain rfl : 0 = n := Option.some.inj h
      exact .absent
    | cons c cs =>
      by_cases hc : c = 'e' ∨ c = 'E'
      · exact .present hc ((readExponent_cons hc).mp h)
      · simp [readExponent, hc] at h
  · intro h
    cases h with
    | absent => rfl
    | present letter denotes => exact (readExponent_cons letter).mpr denotes

/-- The exponents of the grammar are those that write one. -/
theorem exponent_iff : Exponent cs ↔ ∃ n, ExponentOf cs n := by
  constructor
  · rintro (_ | ⟨letter, signed, digits⟩)
    · exact ⟨0, .absent⟩
    · exact ⟨_, .present letter (denotes_iff.mpr
        ⟨(dropSign_iff fun _ => dropSign_of_digits).mpr ⟨_, signed, _, rfl, digits⟩, rfl⟩)⟩
  · rintro ⟨n, _ | ⟨letter, denotes⟩⟩
    · exact .absent
    · obtain ⟨sign, signed, ds, rfl, digits⟩ :=
        (dropSign_iff fun _ => dropSign_of_digits).mp (denotes_iff.mp denotes).1
      exact .present letter signed digits

/-- No digit stands in front of an exponent's letter. -/
theorem Exponent.head (h : Exponent cs) : ∀ c ∈ cs.head?, c = 'e' ∨ c = 'E' := by
  cases h with
  | absent => exact nofun
  | present letter => simpa using letter

/-! ## Numbers and words -/

/-- A number starts with a digit or a point. -/
theorem Number.head (h : Number cs) : ∀ c ∈ cs.head?, c.isDigit = true ∨ c = '.' := by
  cases h with
  | whole digits =>
    obtain ⟨hne, hall⟩ := digits
    obtain ⟨d, ds, rfl⟩ := List.exists_cons_of_ne_nil hne
    simpa using .inl (hall d List.mem_cons_self)
  | @point ds ps x before =>
    cases ds with
    | nil => simp
    | cons d ds => simpa using .inl (before d List.mem_cons_self)

theorem dropSign_of_unsigned (h : Number cs ∨ Word cs) : dropSign cs = cs := by
  refine dropSign_eq_self fun c hc => ?_
  rcases h with h | h
  · rcases h.head c hc with hdigit | rfl
    · exact Integer.ne_sign hdigit
    · decide
  · obtain ⟨ds, rfl⟩ := List.head?_eq_some_iff.mp hc
    constructor <;>
    · rintro rfl
      simp [Word, Text.lowerChar, ← String.toList_inj] at h

theorem Exponent.not_isDigit (h : Exponent cs) : ∀ c ∈ cs.head?, c.isDigit = false := by
  intro c hc
  rcases h.head c hc with rfl | rfl <;> decide

/-- The numbers of the grammar are those that write one. -/
theorem number_iff : Number cs ↔ ∃ m e, NumberOf cs m e := by
  constructor
  · rintro (⟨digits, exponent⟩ | ⟨before, after, some, exponent⟩)
    · obtain ⟨e, he⟩ := exponent_iff.mp exponent
      exact ⟨_, _, .whole digits he⟩
    · obtain ⟨e, he⟩ := exponent_iff.mp exponent
      exact ⟨_, _, .point before after some he⟩
  · rintro ⟨m, e, ⟨digits, exponent⟩ | ⟨before, after, some, exponent⟩⟩
    · exact .whole digits (exponent_iff.mpr ⟨_, exponent⟩)
    · exact .point before after some (exponent_iff.mpr ⟨_, exponent⟩)

/-- No number is a word. -/
theorem Number.not_word (h : Number cs) : ¬ Word cs := by
  intro hw
  cases hc : cs with
  | nil => simp [hc, Word] at hw
  | cons c ds =>
    have hhead := h.head c (by rw [hc]; rfl)
    have hlower : Text.lowerChar c = 'i' ∨ Text.lowerChar c = 'n' := by
      simp [hc, Word, ← String.toList_inj] at hw
      tauto
    have hsame : Text.lowerChar c = c := by
      refine if_neg fun hletter => ?_
      rcases hhead with hdigit | rfl
      · have hle : c.toNat ≤ 57 := (Char.isDigit_iff_toNat.mp hdigit).2
        have hge : 65 ≤ c.toNat := hletter.1
        omega
      · exact absurd hletter (by decide)
    rw [hsame] at hlower
    rcases hlower with rfl | rfl <;> simp at hhead

/-- The digits behind the point of a number, if it has one, and what is left. -/
def afterPoint (cs : List Char) : List Char × List Char :=
  match cs.dropWhile Char.isDigit with
  | '.' :: rest => (rest.takeWhile Char.isDigit, rest.dropWhile Char.isDigit)
  | rest => ([], rest)

theorem afterPoint_of_ne (h : ∀ rest, cs.dropWhile Char.isDigit ≠ '.' :: rest) :
    afterPoint cs = ([], cs.dropWhile Char.isDigit) := by
  unfold afterPoint
  split
  · rename_i rest heq
    exact absurd heq (h rest)
  · rfl

/-- A number is digits, on one side of a point at least, and an exponent. -/
theorem numberOf_iff : NumberOf cs m e ↔
    (cs.takeWhile Char.isDigit ≠ [] ∨ (afterPoint cs).1 ≠ []) ∧
      ∃ x, ExponentOf (afterPoint cs).2 x ∧
        m = Nat.ofDigitChars 10 (cs.takeWhile Char.isDigit ++ (afterPoint cs).1) 0 ∧
        e = x - (afterPoint cs).1.length := by
  have hcs := List.takeWhile_append_dropWhile (p := Char.isDigit) (l := cs)
  have hdigits := isDigit_of_mem_takeWhile
  constructor
  · intro h
    cases h with
    | @whole ds x e digits exponent =>
      have hexponent := exponent_iff.mpr ⟨_, exponent⟩
      obtain ⟨htake, hdrop⟩ := takeWhile_digits digits.2 hexponent.not_isDigit
      have hpoint : ∀ rest, (ds ++ x).dropWhile Char.isDigit ≠ '.' :: rest := by
        rintro rest heq
        rw [hdrop] at heq
        simpa using hexponent.head '.' (by rw [heq]; rfl)
      rw [afterPoint_of_ne hpoint, htake, hdrop]
      exact ⟨.inl digits.1, _, exponent, by simp, by simp⟩
    | @point ds ps x e before after some exponent =>
      have hpoint : ∀ c ∈ ('.' :: (ps ++ x)).head?, c.isDigit = false := by
        simp only [List.head?_cons, Option.mem_some_iff, forall_eq']
        decide
      obtain ⟨htake, hdrop⟩ := takeWhile_digits before hpoint
      obtain ⟨htake', hdrop'⟩ := takeWhile_digits after (exponent_iff.mpr ⟨_, exponent⟩).not_isDigit
      have hafter : afterPoint (ds ++ '.' :: (ps ++ x)) = (ps, x) := by
        rw [afterPoint, hdrop]
        exact Prod.ext htake' hdrop'
      rw [hafter, htake]
      exact ⟨some, e, exponent, rfl, rfl⟩
  · rintro ⟨hne, x, exponent, rfl, rfl⟩
    by_cases hpoint : ∃ rest, cs.dropWhile Char.isDigit = '.' :: rest
    · obtain ⟨rest, hdrop⟩ := hpoint
      have hafter : afterPoint cs = (rest.takeWhile Char.isDigit, rest.dropWhile Char.isDigit) := by
        rw [afterPoint, hdrop]
        rfl
      rw [hdrop, ← List.takeWhile_append_dropWhile (p := Char.isDigit) (l := rest)] at hcs
      rw [hafter] at hne exponent ⊢
      conv => arg 1; rw [← hcs]
      exact .point (hdigits cs) (hdigits rest) hne exponent
    · have hafter := afterPoint_of_ne fun rest heq => hpoint ⟨rest, heq⟩
      rw [hafter] at hne exponent ⊢
      conv => arg 1; rw [← hcs]
      simpa using NumberOf.whole ⟨hne.resolve_right (not_not.mpr rfl), hdigits cs⟩ exponent

/-- What is read of a text without a sign: a word, or the parts of a number. -/
theorem parseUnsigned_eq (negative : Bool) (cs : List Char) : parseUnsigned negative cs =
    if String.ofList (cs.map Text.lowerChar) = "inf" ∨
      String.ofList (cs.map Text.lowerChar) = "infinity" then some (.infinity negative)
    else if String.ofList (cs.map Text.lowerChar) = "nan" then some (.nan negative)
    else if cs.takeWhile Char.isDigit = [] ∧ (afterPoint cs).1 = [] then none
    else (readExponent (afterPoint cs).2).map fun e => .finite negative
      (Nat.ofDigitChars 10 (cs.takeWhile Char.isDigit ++ (afterPoint cs).1) 0)
        (e - (afterPoint cs).1.length) := by
  unfold parseUnsigned
  dsimp only
  rw [spanDigits_eq]
  cases hdrop : cs.dropWhile Char.isDigit with
  | nil =>
    rw [afterPoint_of_ne (by simp [hdrop]), hdrop, List.append_nil]
    simp [ofDigits_map]
  | cons c rest =>
    by_cases hc : c = '.'
    · subst hc
      simp only [afterPoint, hdrop, spanDigits_eq, ← List.map_append, ofDigits_map, List.length_map]
      simp
    · rw [afterPoint_of_ne (by simp [hdrop, hc]), hdrop, List.append_nil]
      simp [hc, ofDigits_map]

/-- **Numbers and words** are read to the end of the text. -/
theorem parseUnsigned_eq_some : parseUnsigned negative cs = some v ↔ UnsignedOf negative cs v := by
  rw [parseUnsigned_eq]
  split_ifs with hinf hnan hempty
  · refine ⟨fun h => Option.some.inj h ▸ .infinity hinf, fun h => ?_⟩
    cases h with
    | number number =>
      refine absurd ?_ (number_iff.mpr ⟨_, _, number⟩).not_word
      rcases hinf with hword | hword <;> simp [Word, hword]
    | infinity => rfl
    | nan word => exact absurd hinf (by rw [word]; decide)
  · refine ⟨fun h => Option.some.inj h ▸ .nan hnan, fun h => ?_⟩
    cases h with
    | number number =>
      exact absurd (by simp [Word, hnan]) (number_iff.mpr ⟨_, _, number⟩).not_word
    | infinity word => exact absurd word hinf
    | nan => rfl
  · refine iff_of_false (by simp) fun h => ?_
    cases h with
    | number number => exact (numberOf_iff.mp number).1.elim (absurd hempty.1) (absurd hempty.2)
    | infinity word => exact hinf word
    | nan word => exact hnan word
  · rw [Option.map_eq_some_iff]
    constructor
    · rintro ⟨x, hx, rfl⟩
      exact .number (numberOf_iff.mpr
        ⟨not_and_or.mp hempty, x, readExponent_eq_some.mp hx, rfl, rfl⟩)
    · intro h
      cases h with
      | number number =>
        obtain ⟨-, x, hx, rfl, rfl⟩ := numberOf_iff.mp number
        exact ⟨x, readExponent_eq_some.mpr hx, rfl⟩
      | infinity word => exact absurd word hinf
      | nan word => exact absurd word hnan

/-- A number or a word writes a value, and nothing else does. -/
theorem unsigned_iff : (Number cs ∨ Word cs) ↔ ∃ v, UnsignedOf negative cs v := by
  constructor
  · rintro (h | h)
    · obtain ⟨m, e, h⟩ := number_iff.mp h
      exact ⟨_, .number h⟩
    · simp only [Word, List.mem_cons, List.not_mem_nil, or_false] at h
      rcases h with h | h | h
      · exact ⟨_, .infinity (.inl h)⟩
      · exact ⟨_, .infinity (.inr h)⟩
      · exact ⟨_, .nan h⟩
  · rintro ⟨v, number | word | word⟩
    · exact .inl (number_iff.mpr ⟨_, _, number⟩)
    · rcases word with word | word <;> exact .inr (by simp [Word, word])
    · exact .inr (by simp [Word, word])

/-- **What a text writes** is what is read. -/
theorem parse_eq_some {s : String} : parse s = some v ↔ Writes s.toList v := by
  unfold parse
  constructor
  · intro h
    split at h
    · rename_i cs hs
      have hwrites : Writes (['-'] ++ cs) v := .intro (by decide) (parseUnsigned_eq_some.mp h)
      exact hs ▸ hwrites
    · rename_i cs hs
      have hwrites : Writes (['+'] ++ cs) v := .intro (by decide) (parseUnsigned_eq_some.mp h)
      exact hs ▸ hwrites
    · have hwrites : Writes ([] ++ s.toList) v := .intro (by decide) (parseUnsigned_eq_some.mp h)
      exact hwrites
  · generalize s.toList = cs
    rintro ⟨signed, unsigned⟩
    simp only [signs, List.mem_cons, List.not_mem_nil, or_false] at signed
    have hparse := parseUnsigned_eq_some.mpr unsigned
    rcases signed with rfl | rfl | rfl
    · have hsame := dropSign_of_unsigned (unsigned_iff.mpr ⟨_, unsigned⟩)
      rw [List.nil_append]
      split
      · exact absurd hsame.symm (List.cons_ne_self '-' _)
      · exact absurd hsame.symm (List.cons_ne_self '+' _)
      · exact hparse
    · exact hparse
    · exact hparse

/-! ## The nearest double -/

/-- The double is the nearest to the number, or the one that the word means. -/
def Value.Nearest : Value → Double → Prop
  | .finite negative m e, x => x.Nearest negative (m * 10 ^ e)
  | .infinity negative, x => x.isNegative = negative ∧ x.magnitude = double.infinity
  | .nan negative, x => x.isNegative = negative ∧ x.magnitude = 0x7FF8000000000000

/-- How large a number with so many digits is. -/
theorem digits_bounds (hm : m ≠ 0) (e : Int) :
    (10 : ℚ) ^ ((Nat.toDigits 10 m).length + e - 1) ≤ m * 10 ^ e ∧
      (m : ℚ) * 10 ^ e < 10 ^ ((Nat.toDigits 10 m).length + e) := by
  have hpos : 0 < (Nat.toDigits 10 m).length := Nat.length_toDigits_pos
  obtain ⟨k, hk⟩ := Nat.exists_eq_add_of_le' hpos
  have hhigh : m < 10 ^ (k + 1) := (Nat.length_toDigits_le_iff (by decide) (Nat.succ_pos k)).mp hk.le
  have hlow : 10 ^ k ≤ m := by
    rcases Nat.eq_zero_or_pos k with rfl | hk0
    · exact Nat.pos_of_ne_zero hm
    · refine not_lt.mp fun hlt => ?_
      have hle := (Nat.length_toDigits_le_iff (by decide) hk0).mpr hlt
      omega
  have hten : (0 : ℚ) < 10 ^ e := by positivity
  rw [hk]
  constructor
  · have hexp : ((k + 1 : Nat) : Int) + e - 1 = k + e := by push_cast; ring
    rw [hexp, zpow_add₀ (by norm_num), zpow_natCast]
    gcongr
    exact_mod_cast hlow
  · rw [zpow_add₀ (by norm_num), zpow_natCast]
    gcongr
    exact_mod_cast hhigh

theorem toRat_infinity : double.toRat double.infinity = 2 ^ 1024 := by
  have hvalue : double.value double.infinity = (2 ^ 52, 972) := by decide
  have hcast : ((2 ^ 52 : Nat) : ℚ) = 2 ^ (52 : Int) := by norm_num
  have hsum : (52 : Int) + 972 = (1024 : Nat) := by norm_num
  rw [Format.toRat, hvalue]
  dsimp only
  rw [hcast, ← zpow_add₀ (by norm_num), hsum, zpow_natCast]

theorem mid_zero : double.mid 0 = 2 ^ (-1075 : Int) := by
  have hvalue : double.value 1 = (1, -1074) := by decide
  rw [Format.mid, Format.toRat_zero, Nat.zero_add, Format.toRat, hvalue, zero_add, Nat.cast_one, one_mul,
    div_eq_mul_inv, ← zpow_neg_one, ← zpow_add₀ (by norm_num)]
  norm_num

/-- Four hundred digits are past the range of doubles, on both sides. -/
theorem two_pow_lt_ten_pow : (2 : ℚ) ^ 1075 < 10 ^ 400 := by
  calc (2 : ℚ) ^ 1075 < 2 ^ (3 * 400) := pow_lt_pow_right₀ (by norm_num) (by decide)
    _ = (2 ^ 3) ^ 400 := pow_mul 2 3 400
    _ ≤ 10 ^ 400 := pow_le_pow_left₀ (by norm_num) (by norm_num) 400

theorem tenTo_pos (n : Nat) : 0 < tenTo n := Nat.pow_pos (by decide)

theorem cast_tenTo (n : Nat) : ((tenTo n : Nat) : ℚ) = 10 ^ (n : Int) := by
  rw [zpow_natCast]
  exact Nat.cast_pow 10 n

/-- **The quotient that is worked out** rounds like the number: so does one that is past all doubles, and one
that is closer to zero than any. -/
theorem rounds_quotient (m : Nat) (e : Int) : 0 < (quotient m e).2 ∧ ∀ b,
    double.Rounds ((quotient m e).1 / (quotient m e).2) b → double.Rounds (m * 10 ^ e) b := by
  unfold quotient
  dsimp only
  split_ifs with hzero hlarge hsmall he
  · simp [hzero]
  · have hpast : double.toRat double.infinity ≤ 10 ^ ((400 : Nat) : Int) := by
      rw [toRat_infinity, zpow_natCast]
      exact (pow_le_pow_right₀ (by norm_num) (by decide)).trans two_pow_lt_ten_pow.le
    have hnumber : double.toRat double.infinity ≤ (m : ℚ) * 10 ^ e := by
      refine hpast.trans (le_trans ?_ (digits_bounds hzero e).1)
      exact zpow_le_zpow_right₀ (by norm_num) (by omega)
    refine ⟨Nat.one_pos, fun b hb => ?_⟩
    dsimp only at hb
    rw [cast_tenTo 400, Nat.cast_one, div_one] at hb
    exact (Format.rounds_of_large hnumber).mpr ((Format.rounds_of_large hpast).mp hb)
  · have hclose : 10 ^ (-((400 : Nat) : Int)) < double.mid 0 := by
      rw [mid_zero, zpow_neg, zpow_neg]
      exact inv_strictAnti₀ (by positivity) two_pow_lt_ten_pow
    have hnumber : (m : ℚ) * 10 ^ e < double.mid 0 := by
      refine lt_of_lt_of_le (digits_bounds hzero e).2 (le_trans ?_ hclose.le)
      exact zpow_le_zpow_right₀ (by norm_num) (by omega)
    dsimp only
    refine ⟨tenTo_pos 400, fun b hb => ?_⟩
    rw [cast_tenTo 400, Nat.cast_one, one_div, ← zpow_neg] at hb
    exact (Format.rounds_of_small hnumber).mpr ((Format.rounds_of_small hclose).mp hb)
  · refine ⟨Nat.one_pos, fun b hb => ?_⟩
    rwa [Nat.cast_mul, cast_tenTo, Int.toNat_of_nonneg he, Nat.cast_one, div_one] at hb
  · refine ⟨tenTo_pos _, fun b hb => ?_⟩
    rwa [cast_tenTo, Int.toNat_of_nonneg (by omega), zpow_neg, div_inv_eq_mul] at hb

/-- **A value becomes the nearest double.** -/
theorem nearest_toDouble (v : Value) : v.Nearest v.toDouble := by
  cases v with
  | finite negative m e =>
    obtain ⟨hpos, hrounds⟩ := rounds_quotient m e
    obtain ⟨hsign, hnear⟩ := Double.nearest_ofQuotient negative (quotient m e).1 hpos
    exact ⟨hsign, hrounds _ hnear⟩
  | infinity negative => exact Double.of_ofMagnitude negative (by decide)
  | nan negative => exact Double.of_ofMagnitude negative (by decide)

/-- **What is read** is the double nearest to what the text writes. -/
theorem read_eq_some {s : String} {x : Double} (h : read s = some x) :
    ∃ v, Writes s.toList v ∧ v.Nearest x := by
  obtain ⟨v, hv, rfl⟩ := Option.map_eq_some_iff.mp h
  exact ⟨v, parse_eq_some.mp hv, nearest_toDouble v⟩

/-- **The texts that are read** are the numerals. -/
theorem read_isSome {s : String} : (read s).isSome = true ↔ Numeral s.toList := by
  rw [read, Option.isSome_map, Option.isSome_iff_exists]
  simp only [parse_eq_some]
  generalize s.toList = cs
  constructor
  · rintro ⟨v, signed, unsigned⟩
    exact .intro signed (unsigned_iff.mpr ⟨_, unsigned⟩)
  · rintro ⟨signed, unsigned⟩
    obtain ⟨v, hv⟩ := unsigned_iff.mp unsigned
    exact ⟨v, .intro signed hv⟩

end RowStream.Decimal
