import Mathlib.Data.Nat.Cast.Order.Field
import RowStream.Number.Shortest
import RowStream.Proofs.Number.Decimal

/-!
# Shortest texts of doubles

What text a double has is said without the search for it (`Shown`). Its decimal is rounded back to the
double, lies on the coarsest grid of powers of ten that has such a decimal, and is the nearest to the
double on that grid (`IsShortest`). This leaves one decimal. The text is its only text without an
exponent and without zeros that could be left out (`Plain`).

The search works on the interval between the two midpoints around the double, in a quarter of the unit of
its last place (`Interval.Encloses`). Only the two points of a grid next to the double need to be looked
at, since an interval around the double that has any point of the grid has one of these. The search starts
above all grids that have a point other than zero in the interval, and a step that is shorter than the
interval is reached after twenty grids.

* `Interval.Encloses.has_iff`, `Interval.Encloses.isNearest`: the points of a grid.
* `search_spec`, `isShortest_digits`: the coarsest grid.
* `plain_positional`: digits written out.
* `shown_text`: the text.

Out of scope: that a coarser grid has no more digits.
-/

namespace RowStream.Shortest

open Binary
open Integer (Digits digitChar_ne_zero digits_toDigits head_toDigits isDigit_of_mem_zeros)

variable {b c d g m n r u : Nat} {e j k : Int} {i : Interval} {ds : List Char} {x : Double}

/-! ## What is shown -/

/-- The point `d` of the grid `10 ^ k` is rounded to the double. Of all such points of the grid it is the
nearest to the double, and the greater one if two are equally near. -/
structure IsNearest (b d : Nat) (k : Int) : Prop where
  rounds : double.Rounds (d * 10 ^ k) b
  nearest : ∀ c : Nat, double.Rounds (c * 10 ^ k) b →
    |(d : ℚ) * 10 ^ k - double.toRat b| ≤ |(c : ℚ) * 10 ^ k - double.toRat b|
  greater : ∀ c : Nat, double.Rounds (c * 10 ^ k) b →
    |(c : ℚ) * 10 ^ k - double.toRat b| = |(d : ℚ) * 10 ^ k - double.toRat b| → c ≤ d

/-- No coarser grid has a point that is rounded to the double. -/
structure IsShortest (b d : Nat) (k : Int) : Prop extends IsNearest b d k where
  coarsest : ∀ (c : Nat) (j : Int), double.Rounds (c * 10 ^ j) b → j ≤ k

/-- Digits without a zero in front, unless that is all. -/
def Whole (ds : List Char) : Prop :=
  Digits ds ∧ (ds.head? = some '0' → ds = ['0'])

/-- The only text of a number without an exponent: no zero in front that could be left out, and none behind
the places after the point. -/
inductive Plain : List Char → ℚ → Prop
  | whole {ds : List Char} (digits : Whole ds) : Plain ds (Nat.ofDigitChars 10 ds 0 : Nat)
  | point {ds ps : List Char} (digits : Whole ds) (places : Digits ps) (last : ps.getLast? ≠ some '0') :
      Plain (ds ++ '.' :: ps) ((Nat.ofDigitChars 10 (ds ++ ps) 0 : Nat) / 10 ^ ps.length)

/-- The sign that is shown of a double. -/
def sign (x : Double) : List Char := if x.isNegative then ['-'] else []

/-- The text that a double is shown as. -/
inductive Shown (x : Double) : List Char → Prop
  | nan (none : double.infinity < x.magnitude) : Shown x ['N', 'a', 'N']
  | infinity (infinite : x.magnitude = double.infinity) : Shown x (sign x ++ ['i', 'n', 'f'])
  | zero (zero : x.magnitude = 0) : Shown x (sign x ++ ['0'])
  | finite {d : Nat} {k : Int} {cs : List Char} (pos : 0 < x.magnitude)
      (finite : x.magnitude < double.infinity) (shortest : IsShortest x.magnitude d k)
      (plain : Plain cs (d * 10 ^ k)) : Shown x (sign x ++ cs)

/-! ## The interval of a double -/

/-- The interval has the midpoints on both sides of a finite double that is not zero, and the double, in
units of `2 ^ (e - 2)`. The midpoints belong to it if the bits are even. -/
structure Interval.Encloses (i : Interval) (e : Int) (b : Nat) : Prop where
  pos : 0 < b
  finite : b < double.infinity
  low : ∀ c, c + 1 = b → double.mid c = i.low * 2 ^ (e - 2)
  value : double.toRat b = i.value * 2 ^ (e - 2)
  high : double.mid b = i.high * 2 ^ (e - 2)
  ends : i.ends = decide (b % 2 = 0)

/-- The unit of the last place is four of the units. -/
theorem unit_eq (e : Int) : (2 : ℚ) ^ e = 4 * 2 ^ (e - 2) := by
  have hsum : e = 2 + (e - 2) := by ring
  conv => lhs; rw [hsum, zpow_add₀ (by norm_num)]
  norm_num

theorem unit_pred (e : Int) : (2 : ℚ) ^ (e - 1) = 2 * 2 ^ (e - 2) := by
  have hsum : e - 1 = 1 + (e - 2) := by ring
  rw [hsum, zpow_add₀ (by norm_num), zpow_one]

/-- The lower end of the interval is the midpoint with the number before. Where that number has a last place
of its own, it is twice as close. -/
theorem mid_of_succ {k : Nat} (hr : r < 2 ^ 53) (hk : k = 0 ∨ 2 ^ 52 ≤ r) (hpos : 0 < r)
    (he : e = k + double.least) (hc : c + 1 = k * 2 ^ 52 + r) :
    double.mid c = (interval r e).low * 2 ^ (e - 2) := by
  have hself : double.toRat (k * 2 ^ 52 + r) = r * 2 ^ e := he ▸ Format.toRat_scaled hr.le hk
  rw [Format.mid, hc, hself]
  by_cases hfirst : k = 0 ∨ 2 ^ 52 ≤ r - 1
  · obtain rfl : c = k * 2 ^ 52 + (r - 1) := by omega
    have hlast : double.toRat (k * 2 ^ 52 + (r - 1)) = (r - 1 : Nat) * 2 ^ e :=
      he ▸ Format.toRat_scaled (f := double) (Nat.le_trans (Nat.sub_le r 1) hr.le) hfirst
    have hlow : (interval r e).low = 4 * r - 2 := by
      have hcond : ¬ (r = twoTo 52 ∧ e ≠ double.least) := by
        rintro ⟨rfl, hne⟩
        rcases hfirst with rfl | hle
        · exact hne (by omega)
        · exact absurd hle (by decide)
      simp only [interval, if_neg hcond]
    rw [hlast, hlow, unit_eq e, Nat.cast_sub (show 1 ≤ r by omega), Nat.cast_sub (by omega)]
    push_cast
    ring
  · obtain ⟨hk0, hr'⟩ := not_or.mp hfirst
    obtain rfl : r = 2 ^ 52 := by omega
    obtain ⟨k, rfl⟩ := Nat.exists_eq_succ_of_ne_zero hk0
    obtain rfl : c = k * 2 ^ 52 + (2 ^ 53 - 1) := by omega
    have hlast : double.toRat (k * 2 ^ 52 + (2 ^ 53 - 1)) = (2 ^ 53 - 1 : Nat) * 2 ^ (e - 1) := by
      have hsub : e - 1 = k + double.least := by omega
      rw [hsub]
      exact Format.toRat_scaled (f := double) (Nat.sub_le _ 1) (.inr (by decide))
    have hlow : (interval (2 ^ 52) e).low = 4 * 2 ^ 52 - 1 := by
      have hcond : 2 ^ 52 = twoTo 52 ∧ e ≠ double.least := ⟨rfl, by omega⟩
      simp only [interval, if_pos hcond]
    rw [hlast, hlow, unit_eq e, unit_pred e]
    norm_num
    ring

/-- The interval that is searched is the one between the midpoints. -/
theorem encloses_interval {k : Nat} (hr : r < 2 ^ 53) (hk : k = 0 ∨ 2 ^ 52 ≤ r) (hpos : 0 < r)
    (hfinite : k * 2 ^ 52 + r < double.infinity) :
    (interval r (k + double.least)).Encloses (k + double.least) (k * 2 ^ 52 + r) := by
  obtain ⟨e, he⟩ : ∃ e : Int, e = k + double.least := ⟨_, rfl⟩
  have hself : double.toRat (k * 2 ^ 52 + r) = r * 2 ^ e := he ▸ Format.toRat_scaled hr.le hk
  have hnext : double.toRat (k * 2 ^ 52 + r + 1) = (r + 1) * 2 ^ e := he ▸ Format.toRat_succ hr hk
  have hvalue : (interval r e).value = 4 * r := rfl
  have hhigh : (interval r e).high = 4 * r + 2 := rfl
  rw [← he]
  refine ⟨by omega, hfinite, fun c hc => mid_of_succ hr hk hpos he hc, ?_, ?_, ?_⟩
  · rw [hself, hvalue, unit_eq e]
    push_cast
    ring
  · rw [Format.mid, hself, hnext, hhigh, unit_eq e]
    push_cast
    ring
  · simp only [interval]
    exact decide_eq_decide.mpr (by omega)

/-! ## The points of a grid -/

/-- A power with a sign, as a quotient of two without. -/
theorem pow_toNat {a : ℚ} (ha : a ≠ 0) (z : Int) : a ^ z.toNat = a ^ z * a ^ (-z).toNat := by
  rw [← zpow_natCast, ← zpow_natCast, ← zpow_add₀ ha]
  congr 1
  omega

/-- The units of the interval and the steps of the grid have a common denominator. -/
theorem units_eq (e k : Int) : ∃ s : ℚ, 0 < s ∧ ((units e k).1 : ℚ) = 2 ^ (e - 2) * s ∧
    ((units e k).2 : ℚ) = 10 ^ k * s := by
  have htwo := pow_toNat (a := 2) (by norm_num) (e - 2)
  have hten := pow_toNat (a := 10) (by norm_num) k
  rw [neg_sub] at htwo
  refine ⟨2 ^ (2 - e).toNat * 10 ^ (-k).toNat, by positivity, ?_, ?_⟩
  · simp only [units, twoTo_eq, Nat.cast_mul, Decimal.cast_tenTo, zpow_natCast, Nat.cast_pow,
      Nat.cast_ofNat]
    rw [htwo, mul_assoc]
  · simp only [units, twoTo_eq, Nat.cast_mul, Decimal.cast_tenTo, zpow_natCast, Nat.cast_pow,
      Nat.cast_ofNat]
    rw [hten]
    ring

/-- The points of the grid that lie in the interval are those that are rounded to the double. -/
theorem Interval.Encloses.has_iff (h : i.Encloses e b) :
    i.has (units e k).1 (units e k).2 d = true ↔ double.Rounds (d * 10 ^ k) b := by
  obtain ⟨s, hs, hu, hg⟩ := units_eq e k
  obtain ⟨c, rfl⟩ := Nat.exists_eq_succ_of_ne_zero h.pos.ne'
  have hpoint : ((d * (units e k).2 : Nat) : ℚ) = d * 10 ^ k * s := by
    rw [Nat.cast_mul, hg, mul_assoc]
  have hlow : ((i.low * (units e k).1 : Nat) : ℚ) = double.mid c * s := by
    rw [Nat.cast_mul, hu, h.low c rfl, mul_assoc]
  have hhigh : ((i.high * (units e k).1 : Nat) : ℚ) = double.mid (c + 1) * s := by
    rw [Nat.cast_mul, hu, h.high, mul_assoc]
  have habove : double.Above (d * 10 ^ k) (c + 1) ↔ double.mid c ≤ d * 10 ^ k ∧
      (double.mid c = d * 10 ^ k → (c + 1) % 2 = 0) := by
    constructor
    · exact fun h => h c rfl
    · rintro h x hx
      obtain rfl : x = c := Nat.succ.inj hx
      exact h
  have hfinite := h.finite
  rw [Format.rounds_iff, habove, Format.Below, Interval.has, h.ends]
  by_cases heven : (c + 1) % 2 = 0
  · simp only [heven, decide_true, if_true, Bool.and_eq_true, decide_eq_true_eq, implies_true, and_true]
    rw [← Nat.cast_le (α := ℚ), ← Nat.cast_le (α := ℚ), hpoint, hlow, hhigh, mul_le_mul_iff_left₀ hs,
      mul_le_mul_iff_left₀ hs]
    exact ⟨fun h => ⟨hfinite.le, h.1, fun _ => h.2⟩, fun h => ⟨h.2.1, h.2.2 hfinite⟩⟩
  · simp only [heven, decide_false, Bool.false_eq_true, if_false, Bool.and_eq_true, decide_eq_true_eq,
      imp_false, ← lt_iff_le_and_ne]
    rw [← Nat.cast_lt (α := ℚ), ← Nat.cast_lt (α := ℚ), hpoint, hlow, hhigh, mul_lt_mul_iff_left₀ hs,
      mul_lt_mul_iff_left₀ hs]
    refine ⟨fun h => ⟨hfinite.le, h.1, fun _ => ⟨h.2.le, h.2.ne'⟩⟩, fun h => ⟨h.2.1, ?_⟩⟩
    exact lt_of_le_of_ne (h.2.2 hfinite).1 (Ne.symm (h.2.2 hfinite).2)

/-- A quotient and its whole part. -/
theorem div_bounds (hd : 0 < d) : ((n / d : Nat) : ℚ) ≤ n / d ∧ (n : ℚ) / d < (n / d : Nat) + 1 := by
  have hpos : (0 : ℚ) < d := by exact_mod_cast hd
  refine ⟨Nat.cast_div_le, ?_⟩
  rw [div_lt_iff₀ hpos, mul_comm]
  exact_mod_cast Nat.lt_mul_div_succ n hd

/-- The double lies between two neighbours on the grid. -/
theorem Interval.Encloses.between (h : i.Encloses e b) (k : Int) :
    ((i.value * (units e k).1 / (units e k).2 : Nat) : ℚ) * 10 ^ k ≤ double.toRat b ∧
      double.toRat b < ((i.value * (units e k).1 / (units e k).2 : Nat) + 1) * 10 ^ k := by
  obtain ⟨s, hs, hu, hg⟩ := units_eq e k
  have hstep : (0 : ℚ) < (units e k).2 := by
    rw [hg]
    positivity
  have hquotient : double.toRat b = ((i.value * (units e k).1 : Nat) : ℚ) / (units e k).2 * 10 ^ k := by
    rw [h.value, Nat.cast_mul, hu, hg]
    field_simp
  obtain ⟨hlow, hhigh⟩ := div_bounds (n := i.value * (units e k).1) (Nat.cast_pos.mp hstep)
  rw [hquotient]
  constructor <;> gcongr

/-- Which neighbour is nearer. -/
theorem Interval.Encloses.closer_iff (h : i.Encloses e b) (k : Int) :
    2 * (i.value * (units e k).1) < (2 * d + 1) * (units e k).2 ↔
      double.toRat b - d * 10 ^ k < (d + 1) * 10 ^ k - double.toRat b := by
  obtain ⟨s, hs, hu, hg⟩ := units_eq e k
  have hdouble : ((2 * (i.value * (units e k).1) : Nat) : ℚ) = 2 * double.toRat b * s := by
    push_cast
    rw [h.value, hu]
    ring
  have hmiddle : (((2 * d + 1) * (units e k).2 : Nat) : ℚ) = (2 * d + 1) * 10 ^ k * s := by
    push_cast
    rw [hg]
    ring
  rw [← Nat.cast_lt (α := ℚ), hdouble, hmiddle, mul_lt_mul_iff_left₀ hs]
  constructor <;> intro h <;> linarith

/-- The point below the double is the nearest if those above it are further away. -/
theorem isNearest_of_le (hd : double.Rounds (d * 10 ^ k) b) (hle : (d : ℚ) * 10 ^ k ≤ double.toRat b)
    (hfar : ∀ c : Nat, d < c → double.Rounds (c * 10 ^ k) b →
      double.toRat b - d * 10 ^ k < c * 10 ^ k - double.toRat b) : IsNearest b d k := by
  refine ⟨hd, fun c hc => ?_, fun c hc heq => ?_⟩
  · rw [abs_of_nonpos (by linarith)]
    rcases Nat.lt_or_ge d c with hlt | hge
    · have hdist := hfar c hlt hc
      rw [abs_of_nonneg (by linarith)]
      linarith
    · have hmul : (c : ℚ) * 10 ^ k ≤ d * 10 ^ k := by gcongr
      rw [abs_of_nonpos (by linarith)]
      linarith
  · by_contra hlt
    have hdist := hfar c (not_le.mp hlt) hc
    rw [abs_of_nonneg (by linarith), abs_of_nonpos (by linarith)] at heq
    linarith

/-- The point above the double is the nearest if those below it are at least as far away. -/
theorem isNearest_of_ge (hd : double.Rounds (d * 10 ^ k) b) (hle : double.toRat b ≤ (d : ℚ) * 10 ^ k)
    (hfar : ∀ c : Nat, c < d → double.Rounds (c * 10 ^ k) b →
      d * 10 ^ k - double.toRat b ≤ double.toRat b - c * 10 ^ k) : IsNearest b d k := by
  refine ⟨hd, fun c hc => ?_, fun c hc heq => ?_⟩
  · rw [abs_of_nonneg (by linarith)]
    rcases Nat.lt_or_ge c d with hlt | hge
    · have hdist := hfar c hlt hc
      rw [abs_of_nonpos (by linarith)]
      linarith
    · have hmul : (d : ℚ) * 10 ^ k ≤ c * 10 ^ k := by gcongr
      rw [abs_of_nonneg (by linarith)]
      linarith
  · by_contra hlt
    have hmul : (d : ℚ) * 10 ^ k < c * 10 ^ k := by
      gcongr
      exact not_le.mp hlt
    rw [abs_of_nonneg (by linarith), abs_of_nonneg (by linarith)] at heq
    linarith

/-- If a point is rounded to the double, so is any between it and the double. -/
theorem Interval.Encloses.has_of_le (h : i.Encloses e b) (hcd : c ≤ d)
    (hd : (d : ℚ) * 10 ^ k ≤ double.toRat b) (hc : double.Rounds (c * 10 ^ k) b) :
    i.has (units e k).1 (units e k).2 d = true := by
  refine h.has_iff.mpr (hc.of_le ?_ hd)
  gcongr

theorem Interval.Encloses.has_of_ge (h : i.Encloses e b) (hdc : d ≤ c)
    (hd : double.toRat b ≤ (d : ℚ) * 10 ^ k) (hc : double.Rounds (c * 10 ^ k) b) :
    i.has (units e k).1 (units e k).2 d = true := by
  refine h.has_iff.mpr (hc.of_ge ?_ hd)
  gcongr

/-- The nearest point of the grid is found if the grid has any that is rounded to the double. -/
theorem Interval.Encloses.isNearest (h : i.Encloses e b) (k : Int) :
    match i.nearest? (units e k).1 (units e k).2 with
    | none => ∀ c : Nat, ¬ double.Rounds (c * 10 ^ k) b
    | some d => IsNearest b d k := by
  obtain ⟨hlow, hhigh⟩ := h.between k
  have hcloser := h.closer_iff (d := i.value * (units e k).1 / (units e k).2) k
  unfold Interval.nearest?
  dsimp only
  generalize i.value * (units e k).1 / (units e k).2 = f at hlow hhigh hcloser
  have hnext : double.toRat b ≤ ((f + 1 : Nat) : ℚ) * 10 ^ k := by
    push_cast
    exact hhigh.le
  -- if a neighbour is not rounded to the double, nothing beyond it is
  cases hf : i.has (units e k).1 (units e k).2 f with
  | false =>
    cases hs : i.has (units e k).1 (units e k).2 (f + 1) with
    | false =>
      intro c hr
      rcases Nat.lt_or_ge f c with hc | hc
      · exact absurd (h.has_of_ge hc hnext hr) (by simp [hs])
      · exact absurd (h.has_of_le hc hlow hr) (by simp [hf])
    | true =>
      refine isNearest_of_ge (h.has_iff.mp hs) hnext fun c hc hr => ?_
      exact absurd (h.has_of_le (Nat.lt_succ_iff.mp hc) hlow hr) (by simp [hf])
  | true =>
    cases hs : i.has (units e k).1 (units e k).2 (f + 1) with
    | false =>
      refine isNearest_of_le (h.has_iff.mp hf) hlow fun c hc hr => ?_
      exact absurd (h.has_of_ge hc hnext hr) (by simp [hs])
    | true =>
      dsimp only
      split_ifs with hclose
      · refine isNearest_of_le (h.has_iff.mp hf) hlow fun c hc _ => ?_
        have hmul : ((f : ℚ) + 1) * 10 ^ k ≤ c * 10 ^ k := by
          gcongr
          exact_mod_cast hc
        have := hcloser.mp hclose
        linarith
      · refine isNearest_of_ge (h.has_iff.mp hs) hnext fun c hc _ => ?_
        have hmul : (c : ℚ) * 10 ^ k ≤ f * 10 ^ k := by
          gcongr
          exact Nat.lt_succ_iff.mp hc
        have := mt hcloser.mpr hclose
        push_cast
        linarith

/-! ## The coarsest grid -/

/-- The first of the grids downwards that has a point is found, if the search gets there. -/
theorem search_spec (h : i.Encloses e b) (hc : double.Rounds (c * 10 ^ j) b) :
    ∀ (n : Nat) (k : Int), j ≤ k → k < j + n →
      IsNearest b (search i e n k).1 (search i e n k).2 ∧
        ∀ (d : Nat) (l : Int), l ≤ k → double.Rounds (d * 10 ^ l) b → l ≤ (search i e n k).2 := by
  intro n
  induction n with
  | zero =>
    intro k hle hlt
    push_cast at hlt
    omega
  | succ n ih =>
    intro k hle hlt
    have hnearest := h.isNearest k
    rw [search]
    dsimp only
    cases hfound : i.nearest? (units e k).1 (units e k).2 with
    | some d =>
      rw [hfound] at hnearest
      exact ⟨hnearest, fun _ _ hl _ => hl⟩
    | none =>
      rw [hfound] at hnearest
      have hne : j ≠ k := fun heq => hnearest c (heq ▸ hc)
      push_cast at hlt
      obtain ⟨hsearch, hcoarsest⟩ := ih (k - 1) (by omega) (by omega)
      refine ⟨hsearch, fun d l hl hd => ?_⟩
      rcases Int.lt_or_eq_of_le hl with hlt | rfl
      · exact hcoarsest d l (by omega) hd
      · exact absurd hd (hnearest d)

theorem quotient_spec (m : Nat) (e : Int) : 0 < (quotient m e).2 ∧
    ((quotient m e).1 : ℚ) / (quotient m e).2 = m * 2 ^ e := by
  unfold quotient
  split_ifs with he
  · refine ⟨Nat.one_pos, ?_⟩
    rw [Nat.cast_one, div_one, cast_mul_twoTo m he]
  · have hpow := cast_mul_twoTo 1 (e := -e) (by omega)
    rw [one_mul, Nat.cast_one, one_mul] at hpow
    refine ⟨Nat.two_pow_pos _, ?_⟩
    rw [hpow, zpow_neg, div_inv_eq_mul]

/-- How large a quotient is, by the digits of its whole part. -/
theorem whole_bounds (hd : 0 < d) (h : d ≤ n) :
    (10 : ℚ) ^ ((Nat.toDigits 10 (n / d)).length - 1 : Int) ≤ n / d ∧
      (n : ℚ) / d < 10 ^ ((Nat.toDigits 10 (n / d)).length : Int) := by
  obtain ⟨hlow, hhigh⟩ := div_bounds (n := n) hd
  have hdigits := Decimal.digits_bounds (Nat.div_pos h hd).ne' 0
  rw [zpow_zero, mul_one, add_zero] at hdigits
  refine ⟨hdigits.1.trans hlow, lt_of_lt_of_le hhigh ?_⟩
  rw [zpow_natCast]
  have hlt := hdigits.2
  rw [zpow_natCast] at hlt
  exact_mod_cast hlt

/-- The power of ten that the search starts at is just above the double. -/
theorem above_spec (hm : 0 < m) (e : Int) :
    (10 : ℚ) ^ (above m e - 1) ≤ m * 2 ^ e ∧ (m : ℚ) * 2 ^ e ≤ 10 ^ above m e := by
  obtain ⟨hd, hvalue⟩ := quotient_spec m e
  unfold above
  generalize quotient m e = p at hd hvalue
  obtain ⟨n, d⟩ := p
  dsimp only at hd hvalue ⊢
  rw [← hvalue]
  split_ifs with hlt
  · have hn : 0 < n := by
      refine Nat.pos_of_ne_zero fun h0 => ?_
      rw [h0, Nat.cast_zero, zero_div] at hvalue
      have hpos : (0 : ℚ) < m * 2 ^ e := by positivity
      exact absurd hvalue hpos.ne
    obtain ⟨hlow, hhigh⟩ := whole_bounds hn hlt.le
    have hinv : (n : ℚ) / d = ((d : ℚ) / n)⁻¹ := (inv_div _ _).symm
    rw [Nat.div_eq_of_lt hlt, hinv]
    generalize (Nat.toDigits 10 (d / n)).length = l at hlow hhigh
    have hone : ((Nat.toDigits 10 0).length : Int) = 1 := by simp
    rw [hone]
    constructor
    · rw [show (1 : Int) - l - 1 = -(l : Int) by ring, zpow_neg]
      exact inv_anti₀ (by positivity) hhigh.le
    · rw [show (1 : Int) - l = -((l : Int) - 1) by ring, zpow_neg]
      exact inv_anti₀ (by positivity) hlow
  · obtain ⟨hlow, hhigh⟩ := whole_bounds hd (not_lt.mp hlt)
    rw [Nat.cast_zero, Int.sub_zero]
    exact ⟨hlow, hhigh.le⟩

theorem Interval.Encloses.toRat_eq (h : (interval m e).Encloses e b) : double.toRat b = m * 2 ^ e := by
  rw [h.value, unit_eq e]
  simp only [interval]
  push_cast
  ring

/-- Points of the grids above are too large for the double, or zero. -/
theorem not_rounds_of_above (hm : 0 < m) (h : (interval m e).Encloses e b) (hj : above m e < j) :
    ¬ double.Rounds (c * 10 ^ j) b := by
  intro hr
  obtain ⟨-, habove, hbelow⟩ := Format.rounds_iff.mp hr
  rcases Nat.eq_zero_or_pos c with rfl | hc
  · obtain ⟨x, rfl⟩ := Nat.exists_eq_succ_of_ne_zero h.pos.ne'
    have hmid := (habove x rfl).1
    have hzero := double.toRat_strictMono.monotone (Nat.zero_le x)
    have hnext := double.toRat_strictMono (Nat.lt_succ_self x)
    rw [double.toRat_zero] at hzero
    rw [Nat.cast_zero, zero_mul, Format.mid] at hmid
    rw [Nat.succ_eq_add_one] at hnext
    linarith
  · have hmid := (hbelow h.finite).1
    have hhigh : ((interval m e).high : ℚ) = 4 * m + 2 := by
      simp only [interval]
      push_cast
      rfl
    have hunit : (0 : ℚ) < 2 ^ (e - 2) := by positivity
    have hmul : (1 : ℚ) * 2 ^ (e - 2) ≤ m * 2 ^ (e - 2) := by
      gcongr
      exact_mod_cast hm
    have hgrid : (10 : ℚ) * 10 ^ above m e ≤ c * 10 ^ j := by
      calc (10 : ℚ) * 10 ^ above m e = 1 * 10 ^ (above m e + 1) := by
            rw [zpow_add_one₀ (by norm_num), one_mul, mul_comm]
        _ ≤ c * 10 ^ j := by
          gcongr
          · exact_mod_cast hc
          · norm_num
          · omega
    have hlarge := (above_spec hm e).2
    rw [unit_eq e] at hlarge
    rw [h.high, hhigh] at hmid
    linarith

/-- Twenty grids further down a step is shorter than the interval. -/
theorem rounds_of_fine (hm : 0 < m) (hm' : m < 2 ^ 53) (h : (interval m e).Encloses e b) :
    ∃ c : Nat, double.Rounds (c * 10 ^ (above m e - 20)) b := by
  obtain ⟨hlow, hhigh⟩ := h.between (above m e - 20)
  generalize (interval m e).value * _ / _ = c at hlow hhigh
  have hunit : (0 : ℚ) < 2 ^ (e - 2) := by positivity
  have hstep : (10 : ℚ) ^ (above m e - 20) < 2 ^ (e - 2) := by
    have hsplit : (10 : ℚ) ^ (above m e - 1) = 10 ^ (above m e - 20) * 10 ^ 19 := by
      rw [← zpow_natCast, ← zpow_add₀ (by norm_num)]
      congr 1
      push_cast
      ring
    have hcast : (m : ℚ) < 2 ^ 53 := by exact_mod_cast hm'
    have hmul : (m : ℚ) * 2 ^ (e - 2) < 2 ^ 53 * 2 ^ (e - 2) := by gcongr
    have hsmall := (above_spec hm e).1
    rw [hsplit, unit_eq e] at hsmall
    norm_num at hmul hsmall ⊢
    linarith
  have hend : ((interval m e).low : ℚ) ≤ 4 * m - 1 := by
    have hle : (interval m e).low + 1 ≤ 4 * m := by
      simp only [interval]
      split_ifs <;> omega
    have hcast : (((interval m e).low + 1 : Nat) : ℚ) ≤ (4 * m : Nat) := by exact_mod_cast hle
    push_cast at hcast
    linarith
  have hbelow : ((interval m e).low : ℚ) * 2 ^ (e - 2) ≤ (4 * m - 1) * 2 ^ (e - 2) := by gcongr
  have hself := h.toRat_eq
  rw [unit_eq e] at hself
  refine ⟨c, Format.rounds_iff.mpr ⟨h.finite.le, fun x hx => ?_, fun _ => ?_⟩⟩
  · rw [h.low x hx]
    exact ⟨by linarith, fun heq => by linarith⟩
  · have hnext := double.toRat_strictMono (Nat.lt_succ_self b)
    rw [Nat.succ_eq_add_one] at hnext
    unfold Format.Below Format.mid
    exact ⟨by linarith, fun heq => by linarith⟩

/-- **The digits of a double** are on the coarsest grid that has any for it. -/
theorem isShortest_digits (hpos : 0 < x.magnitude) (hfinite : x.magnitude < double.infinity) :
    IsShortest x.magnitude (digits x).1 (digits x).2 := by
  obtain ⟨k, r, hb, hr, hk⟩ := double.exists_scaled x.magnitude
  have hr0 : 0 < r := by
    rcases hk with rfl | hle
    · rw [hb, Nat.zero_mul, Nat.zero_add] at hpos
      exact hpos
    · exact Nat.lt_of_lt_of_le (Nat.two_pow_pos _) hle
  have hvalue : x.value = (r, (k : Int) + double.least) := by
    rw [Double.value, hb]
    exact Format.value_scaled hr hk
  rw [digits, hvalue, hb]
  rw [hb] at hfinite
  have hencloses := encloses_interval hr hk hr0 hfinite
  obtain ⟨c, hc⟩ := rounds_of_fine hr0 hr hencloses
  obtain ⟨hnearest, hcoarsest⟩ := search_spec hencloses hc 400 (above r (k + double.least))
    (by omega) (by push_cast; omega)
  refine ⟨hnearest, fun d l hd => hcoarsest d l ?_ hd⟩
  exact not_lt.mp fun hlt => not_rounds_of_above hr0 hencloses hlt hd

/-! ## The text -/

/-- The digits do not end in a zero: there would be a coarser grid. -/
theorem IsShortest.mod_ten (h : IsShortest b d k) : d % 10 ≠ 0 := by
  intro hmod
  obtain ⟨c, rfl⟩ := Nat.dvd_of_mod_eq_zero hmod
  have hcoarser : ((10 * c : Nat) : ℚ) * 10 ^ k = c * 10 ^ (k + 1) := by
    rw [zpow_add_one₀ (by norm_num)]
    push_cast
    ring
  have hle := h.coarsest c (k + 1) (hcoarser ▸ h.rounds)
  omega

theorem strip_eq_self (hd : d % 10 ≠ 0) : ∀ n, strip n d k = (d, k)
  | 0 => rfl
  | n + 1 => by rw [strip, if_neg hd]

theorem getLast_toDigits (hd : d % 10 ≠ 0) : (Nat.toDigits 10 d).getLast? ≠ some '0' := by
  rw [Nat.toDigits_eq_if (by decide)]
  split_ifs with hlt
  · rw [Nat.mod_eq_of_lt hlt] at hd
    simpa using digitChar_ne_zero hd hlt
  · simpa using digitChar_ne_zero hd (Nat.mod_lt d (by decide))

theorem mul_zpow_neg (hk : k ≤ 0) : (d : ℚ) * 10 ^ k = d / 10 ^ (-k).toNat := by
  have hneg : ((-k).toNat : Int) = -k := Int.toNat_of_nonneg (by omega)
  rw [← zpow_natCast, hneg, zpow_neg, div_inv_eq_mul]

section

variable (hds : Digits ds) (hvalue : Nat.ofDigitChars 10 ds 0 = d) (hhead : ds.head? ≠ some '0')
  (hlast : ds.getLast? ≠ some '0')

include hds hvalue

include hhead in
/-- Digits with zeros behind them. -/
theorem plain_zeros (hk : 0 ≤ k) : Plain (ds ++ List.replicate k.toNat '0') (d * 10 ^ k) := by
  have hzeros : ((Nat.ofDigitChars 10 (ds ++ List.replicate k.toNat '0') 0 : Nat) : ℚ) = d * 10 ^ k := by
    rw [Nat.ofDigitChars_append, hvalue, Nat.ofDigitChars_replicate_zero, Nat.cast_mul, mul_comm]
    conv => rhs; rw [← Int.toNat_of_nonneg hk]
    rw [zpow_natCast]
    push_cast
    rfl
  rw [← hzeros]
  refine .whole ⟨⟨by simp [hds.1], ?_⟩, fun h => absurd h ?_⟩
  · exact fun c hc => (List.mem_append.mp hc).elim (hds.2 c) (isDigit_of_mem_zeros c)
  · rwa [List.head?_append_of_ne_nil _ hds.1]

include hhead hlast in
/-- Digits with the point among them, so many places from their end. -/
theorem plain_split (hk : k < 0) (hlt : (-k).toNat < ds.length) :
    Plain (ds.take (ds.length - (-k).toNat) ++ '.' :: ds.drop (ds.length - (-k).toNat)) (d * 10 ^ k) := by
  rw [mul_zpow_neg hk.le]
  obtain ⟨w, hw⟩ : ∃ w, w = ds.length - (-k).toNat := ⟨_, rfl⟩
  have hlen : (ds.drop w).length = (-k).toNat := by
    rw [List.length_drop]
    omega
  have hsplit := List.take_append_drop w ds
  have hwhole : (ds.take w).head? = ds.head? := by
    rw [List.head?_take, if_neg (by omega)]
  have hplain : Plain (ds.take w ++ '.' :: ds.drop w)
      ((Nat.ofDigitChars 10 (ds.take w ++ ds.drop w) 0 : Nat) / 10 ^ (ds.drop w).length) := by
    refine .point ⟨⟨?_, fun c hc => hds.2 c (List.mem_of_mem_take hc)⟩, fun h => ?_⟩
      ⟨?_, fun c hc => hds.2 c (List.mem_of_mem_drop hc)⟩ ?_
    · exact List.ne_nil_of_length_pos (by rw [List.length_take]; omega)
    · exact absurd (hwhole ▸ h) hhead
    · exact List.ne_nil_of_length_pos (by omega)
    · rw [List.getLast?_drop]
      split_ifs
      · simp
      · exact hlast
  rwa [hsplit, hvalue, hlen, hw] at hplain

include hlast in
/-- Digits behind a zero, the point and as many zeros as places are left: the number is less than one. -/
theorem plain_fraction (hk : k < 0) (hle : ds.length ≤ (-k).toNat) :
    Plain ('0' :: '.' :: (List.replicate ((-k).toNat - ds.length) '0' ++ ds)) (d * 10 ^ k) := by
  rw [mul_zpow_neg hk.le]
  obtain ⟨z, hz⟩ : ∃ z, z = (-k).toNat - ds.length := ⟨_, rfl⟩
  have hlen : (List.replicate z '0' ++ ds).length = (-k).toNat := by
    rw [List.length_append, List.length_replicate]
    omega
  have hzeros : Nat.ofDigitChars 10 (['0'] ++ (List.replicate z '0' ++ ds)) 0 = d := by
    rw [← List.append_assoc, List.singleton_append, ← List.replicate_succ, Nat.ofDigitChars_append,
      Nat.ofDigitChars_replicate_zero, Nat.mul_zero, hvalue]
  have hplain : Plain (['0'] ++ '.' :: (List.replicate z '0' ++ ds))
      ((Nat.ofDigitChars 10 (['0'] ++ (List.replicate z '0' ++ ds)) 0 : Nat) /
        10 ^ (List.replicate z '0' ++ ds).length) := by
    refine .point ⟨⟨by simp, by simp⟩, fun _ => rfl⟩ ⟨by simp [hds.1], ?_⟩ ?_
    · exact fun c hc => (List.mem_append.mp hc).elim (isDigit_of_mem_zeros c) (hds.2 c)
    · rwa [List.getLast?_append_of_ne_nil _ hds.1]
  rwa [hzeros, hlen, hz] at hplain

end

/-- **A decimal written out** is the plain text of its value. -/
theorem plain_positional (hd : d % 10 ≠ 0) (k : Int) : Plain (positional d k) (d * 10 ^ k) := by
  have hdigits := digits_toDigits d
  have hvalue := Nat.ofDigitChars_ten_toDigits (n := d)
  have hhead := head_toDigits d (by omega)
  have hlast := getLast_toDigits hd
  unfold positional
  dsimp only
  split_ifs with hk hplaces
  · exact plain_zeros hdigits hvalue hhead hk
  · exact plain_split hdigits hvalue hhead hlast (not_le.mp hk) hplaces
  · exact plain_fraction hdigits hvalue hlast (not_le.mp hk) (not_lt.mp hplaces)

/-- **The text of a double** is the one that it is shown as. -/
theorem shown_text (x : Double) : Shown x (text x).toList := by
  obtain ⟨s, hs⟩ : ∃ s, s = if x.isNegative then "-" else "" := ⟨_, rfl⟩
  have hsign : s.toList = sign x := by
    rw [hs, sign]
    split_ifs <;> rfl
  unfold text
  dsimp only
  rw [← hs]
  split_ifs with hnan hinf hzero
  · exact .nan (of_decide_eq_true hnan)
  · rw [String.toList_append, hsign]
    exact .infinity (of_decide_eq_true hinf)
  · rw [String.toList_append, hsign]
    exact .zero (of_decide_eq_true hzero)
  · rw [Double.isNan, decide_eq_true_eq, not_lt] at hnan
    rw [Double.isInfinite, decide_eq_true_eq] at hinf
    rw [Double.isZero, decide_eq_true_eq] at hzero
    have hpos : 0 < x.magnitude := Nat.pos_of_ne_zero hzero
    have hfinite : x.magnitude < double.infinity := Nat.lt_of_le_of_ne hnan hinf
    have hshortest := isShortest_digits hpos hfinite
    rw [strip_eq_self hshortest.mod_ten, String.toList_append, hsign, String.toList_ofList]
    exact .finite hpos hfinite hshortest (plain_positional hshortest.mod_ten _)

end RowStream.Shortest
