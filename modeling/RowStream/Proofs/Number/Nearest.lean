import Mathlib.Algebra.Order.Field.Basic
import Mathlib.Algebra.Order.Field.Power
import Mathlib.Data.Rat.Cast.Order
import Mathlib.Tactic.FieldSimp
import Mathlib.Tactic.Linarith
import Mathlib.Tactic.Positivity
import Mathlib.Tactic.Ring
import RowStream.Number.Binary

/-!
# Nearest numbers

What rounding gives is said without the rounding (`Format.Rounds`): of the numbers of a format, the
nearest to a quotient, and of two equally near the one whose bits are even. Infinity takes the place of
the number that would come after the largest, so quotients from half-way between the two on are rounded
to it.

The numbers grow with their bits, one unit of the last place at a time. So the nearest is the one whose
two midpoints, with the number before and with the number after, enclose the quotient (`rounds_iff`).
Rounding in units of the last place keeps to these midpoints where the last place stays the same. Where it
changes, at a power of two, the leading bit of the quotient is on the right side already.

Signs are left out here: they lie beside the rounding (`Double.Nearest`).

* `Format.toRat_strictMono`, `Format.rounds_iff`: the numbers of a format, and their midpoints.
* `Format.Rounds.of_le`, `Format.Rounds.of_ge`: what is rounded to a number is an interval around it.
* `toNearest_roundScaled`, `leading_spec`: rounding to an integer, and the leading bit.
* `Format.rounds_round`: rounding to a format.
* `Double.nearest_ofQuotient`: the doubles that are rounded to.
-/

namespace RowStream.Binary

variable {f : Format} {q : ℚ} {b c k m n d r : Nat}

theorem twoTo_eq (n : Nat) : twoTo n = 2 ^ n := rfl

/-- The number that the bits of a number without its sign stand for. -/
def Format.toRat (f : Format) (bits : Nat) : ℚ :=
  (f.value bits).1 * 2 ^ (f.value bits).2

/-- Of the numbers of the format the bits have the one nearest to the quotient; if another is equally near,
they are even. -/
structure Format.Rounds (f : Format) (q : ℚ) (b : Nat) : Prop where
  bounded : b ≤ f.infinity
  nearest : ∀ c ≤ f.infinity, |f.toRat b - q| ≤ |f.toRat c - q|
  even : ∀ c ≤ f.infinity, c ≠ b → |f.toRat c - q| = |f.toRat b - q| → b % 2 = 0

/-! ## The numbers of a format -/

/-- The bits of a number are its last place and the number in units of it. Those of the smallest numbers
have no leading bit. -/
theorem Format.value_scaled (hr : r < 2 ^ (f.fraction + 1)) (hk : k = 0 ∨ 2 ^ f.fraction ≤ r) :
    f.value (k * 2 ^ f.fraction + r) = (r, (k : Int) + f.least) := by
  have hpos : 0 < 2 ^ f.fraction := Nat.two_pow_pos _
  rw [Nat.pow_succ] at hr
  rcases Nat.lt_or_ge r (2 ^ f.fraction) with hlt | hge
  · obtain rfl : k = 0 := hk.resolve_right (Nat.not_le.mpr hlt)
    simp [Format.value, twoTo_eq, Nat.div_eq_of_lt hlt, Nat.mod_eq_of_lt hlt]
  · obtain ⟨s, rfl⟩ := Nat.exists_eq_add_of_le hge
    have hs : s < 2 ^ f.fraction := by omega
    have heq : k * 2 ^ f.fraction + (2 ^ f.fraction + s) = s + (k + 1) * 2 ^ f.fraction := by ring
    have hdiv : (s + (k + 1) * 2 ^ f.fraction) / 2 ^ f.fraction = k + 1 := by
      rw [Nat.add_mul_div_right _ _ hpos, Nat.div_eq_of_lt hs, Nat.zero_add]
    have hmod : (s + (k + 1) * 2 ^ f.fraction) % 2 ^ f.fraction = s := by
      rw [Nat.add_mul_mod_self_right, Nat.mod_eq_of_lt hs]
    rw [heq]
    simp [Format.value, twoTo_eq, hdiv, hmod, Nat.add_comm]

theorem Format.exists_scaled (f : Format) (b : Nat) : ∃ k r, b = k * 2 ^ f.fraction + r ∧
    r < 2 ^ (f.fraction + 1) ∧ (k = 0 ∨ 2 ^ f.fraction ≤ r) := by
  have hpos : 0 < 2 ^ f.fraction := Nat.two_pow_pos _
  have hsplit := Nat.div_add_mod b (2 ^ f.fraction)
  have hmod := Nat.mod_lt b hpos
  rw [Nat.mul_comm] at hsplit
  cases hx : b / 2 ^ f.fraction with
  | zero =>
    rw [hx] at hsplit
    refine ⟨0, b, by simp, ?_, .inl rfl⟩
    rw [Nat.pow_succ]
    omega
  | succ x =>
    rw [hx, Nat.succ_mul] at hsplit
    refine ⟨x, 2 ^ f.fraction + b % 2 ^ f.fraction, by omega, ?_, .inr (Nat.le_add_right _ _)⟩
    rw [Nat.pow_succ]
    omega

/-- The number of the bits, also where the last place changes. -/
theorem Format.toRat_scaled (hr : r ≤ 2 ^ (f.fraction + 1)) (hk : k = 0 ∨ 2 ^ f.fraction ≤ r) :
    f.toRat (k * 2 ^ f.fraction + r) = r * 2 ^ ((k : Int) + f.least) := by
  rcases Nat.lt_or_eq_of_le hr with hlt | rfl
  · rw [Format.toRat, Format.value_scaled hlt hk]
  · have hlt : 2 ^ f.fraction < 2 ^ (f.fraction + 1) := Nat.pow_lt_pow_right (by decide) (Nat.lt_succ_self _)
    have hnext : k * 2 ^ f.fraction + 2 ^ (f.fraction + 1) = (k + 1) * 2 ^ f.fraction + 2 ^ f.fraction := by
      ring
    rw [hnext, Format.toRat, Format.value_scaled hlt (.inr (Nat.le_refl _))]
    push_cast
    rw [show (k : Int) + 1 + f.least = (k + f.least) + 1 by ring, zpow_add_one₀ (by norm_num)]
    ring

theorem Format.toRat_succ (hr : r < 2 ^ (f.fraction + 1)) (hk : k = 0 ∨ 2 ^ f.fraction ≤ r) :
    f.toRat (k * 2 ^ f.fraction + r + 1) = (r + 1) * 2 ^ ((k : Int) + f.least) := by
  rw [Nat.add_assoc, Format.toRat_scaled hr (hk.imp_right Nat.le_succ_of_le)]
  push_cast
  rfl

/-- **Numbers grow with their bits.** -/
theorem Format.toRat_strictMono (f : Format) : StrictMono f.toRat := by
  refine strictMono_nat_of_lt_succ fun b => ?_
  obtain ⟨k, r, rfl, hr, hk⟩ := f.exists_scaled b
  rw [Format.toRat_succ hr hk, Format.toRat_scaled hr.le hk]
  have hunit : (0 : ℚ) < 2 ^ ((k : Int) + f.least) := by positivity
  linarith

theorem Format.toRat_zero (f : Format) : f.toRat 0 = 0 := by
  simp [Format.toRat, Format.value]

/-! ## Midpoints -/

/-- Which of two numbers is nearer is a matter of the midpoint. -/
theorem abs_sub_le_left {x y : ℚ} (h : x < y) : |y - q| ≤ |x - q| ↔ (x + y) / 2 ≤ q := by
  rw [← sq_le_sq, div_le_iff₀ (by norm_num)]
  constructor <;> intro h' <;> nlinarith

theorem abs_sub_le_right {x y : ℚ} (h : x < y) : |x - q| ≤ |y - q| ↔ q ≤ (x + y) / 2 := by
  rw [← sq_le_sq, le_div_iff₀ (by norm_num)]
  constructor <;> intro h' <;> nlinarith

theorem abs_sub_eq {x y : ℚ} (h : x < y) : |x - q| = |y - q| ↔ (x + y) / 2 = q := by
  rw [le_antisymm_iff, abs_sub_le_left h, abs_sub_le_right h, ← le_antisymm_iff, eq_comm]

/-- Halfway between the number of the bits and the next one. -/
def Format.mid (f : Format) (b : Nat) : ℚ := (f.toRat b + f.toRat (b + 1)) / 2

theorem Format.mid_strictMono (f : Format) : StrictMono f.mid := by
  refine strictMono_nat_of_lt_succ fun b => ?_
  have h := f.toRat_strictMono (Nat.lt_succ_self b)
  have h' := f.toRat_strictMono (Nat.lt_succ_self (b + 1))
  unfold Format.mid
  simp only [Nat.succ_eq_add_one] at h h'
  linarith

/-- The quotient is not nearer to the number before; if it is equally near, the bits are even. -/
def Format.Above (f : Format) (q : ℚ) (b : Nat) : Prop :=
  ∀ c, c + 1 = b → f.mid c ≤ q ∧ (f.mid c = q → b % 2 = 0)

/-- The quotient is not nearer to the next number; if it is equally near, the bits are even. -/
def Format.Below (f : Format) (q : ℚ) (b : Nat) : Prop :=
  q ≤ f.mid b ∧ (f.mid b = q → b % 2 = 0)

/-- **The nearest number** is the one whose midpoints enclose the quotient. -/
theorem Format.rounds_iff : f.Rounds q b ↔ b ≤ f.infinity ∧ f.Above q b ∧ (b < f.infinity → f.Below q b) := by
  constructor
  · intro h
    refine ⟨h.bounded, ?_, fun hb => ?_⟩
    · rintro c rfl
      have hlt := f.toRat_strictMono (Nat.lt_succ_self c)
      have hc : c ≤ f.infinity := Nat.le_of_succ_le h.bounded
      refine ⟨(abs_sub_le_left hlt).mp (h.nearest c hc), fun hmid => ?_⟩
      exact h.even c hc (Nat.ne_of_lt (Nat.lt_succ_self c)) ((abs_sub_eq hlt).mpr hmid)
    · have hlt := f.toRat_strictMono (Nat.lt_succ_self b)
      refine ⟨(abs_sub_le_right hlt).mp (h.nearest _ hb), fun hmid => ?_⟩
      exact h.even _ hb (Nat.succ_ne_self b) ((abs_sub_eq hlt).mpr hmid).symm
  · rintro ⟨hbounded, habove, hbelow⟩
    have hlow {c : Nat} (hc : c < b) : (f.toRat c + f.toRat b) / 2 ≤ q ∧
        ((f.toRat c + f.toRat b) / 2 = q → b % 2 = 0) := by
      obtain ⟨a, rfl⟩ := Nat.exists_eq_add_of_lt hc
      obtain ⟨hle, heven⟩ := habove (c + a) rfl
      have hmono : f.toRat c ≤ f.toRat (c + a) := f.toRat_strictMono.monotone (Nat.le_add_right c a)
      unfold Format.mid at hle heven
      exact ⟨by linarith, fun heq => heven (by linarith)⟩
    have hhigh {c : Nat} (hbc : b < c) (hc : c ≤ f.infinity) : q ≤ (f.toRat b + f.toRat c) / 2 ∧
        ((f.toRat b + f.toRat c) / 2 = q → b % 2 = 0) := by
      obtain ⟨hle, heven⟩ := hbelow (Nat.lt_of_lt_of_le hbc hc)
      have hmono : f.toRat (b + 1) ≤ f.toRat c := f.toRat_strictMono.monotone hbc
      unfold Format.mid at hle heven
      exact ⟨by linarith, fun heq => heven (by linarith)⟩
    refine ⟨hbounded, fun c hc => ?_, fun c hc hne heq => ?_⟩
    · rcases Nat.lt_trichotomy c b with hlt | rfl | hlt
      · exact (abs_sub_le_left (f.toRat_strictMono hlt)).mpr (hlow hlt).1
      · exact le_refl _
      · exact (abs_sub_le_right (f.toRat_strictMono hlt)).mpr (hhigh hlt hc).1
    · rcases Nat.lt_or_gt_of_ne hne with hlt | hlt
      · exact (hlow hlt).2 ((abs_sub_eq (f.toRat_strictMono hlt)).mp heq)
      · exact (hhigh hlt hc).2 ((abs_sub_eq (f.toRat_strictMono hlt)).mp heq.symm)

/-- What lies between a number and a quotient that is rounded to it is rounded to it too. -/
theorem Format.Rounds.of_le {p : ℚ} (h : f.Rounds q b) (hle : q ≤ p) (hp : p ≤ f.toRat b) : f.Rounds p b := by
  obtain ⟨hb, habove, -⟩ := Format.rounds_iff.mp h
  have hnext := f.toRat_strictMono (Nat.lt_succ_self b)
  refine Format.rounds_iff.mpr ⟨hb, fun c hc => ?_, fun _ => ?_⟩
  · obtain ⟨hmid, heven⟩ := habove c hc
    exact ⟨hmid.trans hle, fun heq => heven (le_antisymm hmid (heq ▸ hle))⟩
  · unfold Format.Below Format.mid
    rw [Nat.succ_eq_add_one] at hnext
    exact ⟨by linarith, fun heq => by linarith⟩

theorem Format.Rounds.of_ge {p : ℚ} (h : f.Rounds q b) (hle : p ≤ q) (hp : f.toRat b ≤ p) : f.Rounds p b := by
  obtain ⟨hb, -, hbelow⟩ := Format.rounds_iff.mp h
  refine Format.rounds_iff.mpr ⟨hb, ?_, fun hlt => ?_⟩
  · rintro c rfl
    have hlast := f.toRat_strictMono (Nat.lt_succ_self c)
    unfold Format.mid
    rw [Nat.succ_eq_add_one] at hlast
    exact ⟨by linarith, fun heq => by linarith⟩
  · obtain ⟨hmid, heven⟩ := hbelow hlt
    exact ⟨hle.trans hmid, fun heq => heven (le_antisymm (heq ▸ hle) hmid)⟩

/-! ## Rounding to integers -/

/-- The integer is nearest to the quotient, and even if another is equally near. -/
structure ToNearest (t : ℚ) (r : Nat) : Prop where
  low : (r : ℚ) - 1 / 2 ≤ t
  high : t ≤ r + 1 / 2
  even : t = r - 1 / 2 ∨ t = r + 1 / 2 → r % 2 = 0

theorem toNearest_roundQuotient (hd : 0 < d) : ToNearest ((n : ℚ) / d) (roundQuotient n d) := by
  have hpos : (0 : ℚ) < d := by exact_mod_cast hd
  have hsplit : (n : ℚ) = d * (n / d : Nat) + (n % d : Nat) := by
    exact_mod_cast (Nat.div_add_mod n d).symm
  obtain ⟨t, ht⟩ : ∃ t : ℚ, t = (n % d : Nat) / d := ⟨_, rfl⟩
  have hq : (n : ℚ) / d = (n / d : Nat) + t := by
    rw [ht, hsplit]
    field_simp
  have ht0 : 0 ≤ t := by rw [ht]; positivity
  have ht1 : t < 1 := by
    rw [ht, div_lt_one hpos]
    exact_mod_cast Nat.mod_lt n hd
  have hhalf : 2 * (n % d) < d ↔ t < 1 / 2 := by
    rw [ht, div_lt_div_iff₀ hpos (by norm_num), mul_comm, one_mul]
    exact_mod_cast Iff.rfl
  have hhalf' : d < 2 * (n % d) ↔ 1 / 2 < t := by
    rw [ht, div_lt_div_iff₀ (by norm_num) hpos, one_mul, mul_comm]
    exact_mod_cast Iff.rfl
  have hup : ((n / d + 1 : Nat) : ℚ) = (n / d : Nat) + 1 := by push_cast; rfl
  unfold roundQuotient
  simp only [hhalf, hhalf', hq]
  split_ifs with hlow hhigh heven
  · exact ⟨by linarith, by linarith, fun h => absurd h (by rintro (h | h) <;> linarith)⟩
  · exact ⟨by linarith, by linarith, fun h => absurd h (by rintro (h | h) <;> linarith)⟩
  · exact ⟨by linarith, by linarith, fun _ => heven⟩
  · exact ⟨by linarith, by linarith, fun _ => by omega⟩

/-- A power of two with its sign, as what a count is multiplied by. -/
theorem cast_mul_twoTo (n : Nat) {e : Int} (he : 0 ≤ e) : ((n * twoTo e.toNat : Nat) : ℚ) = n * 2 ^ e := by
  conv => rhs; rw [← Int.toNat_of_nonneg he]
  rw [zpow_natCast, twoTo_eq]
  push_cast
  rfl

/-- The quotient in units of a power of two is rounded. -/
theorem toNearest_roundScaled (hd : 0 < d) (e : Int) :
    ToNearest ((n : ℚ) / d / 2 ^ e) (roundScaled n d e) := by
  unfold roundScaled
  split_ifs with he
  · have hround := toNearest_roundQuotient (n := n) (d := d * twoTo e.toNat)
      (Nat.mul_pos hd (Nat.two_pow_pos _))
    rwa [cast_mul_twoTo d he, ← div_div] at hround
  · have hround := toNearest_roundQuotient (n := n * twoTo (-e).toNat) hd
    rwa [cast_mul_twoTo n (by omega), zpow_neg, ← div_eq_mul_inv, div_right_comm] at hround

/-! ## The leading bit -/

/-- The leading bits of two numbers give that of the quotient up to one place. -/
theorem quotient_log2 (hn : 0 < n) (hd : 0 < d) :
    (2 : ℚ) ^ ((n.log2 : Int) - d.log2 - 1) < (n : ℚ) / d ∧
      (n : ℚ) / d < 2 ^ ((n.log2 : Int) - d.log2 + 1) := by
  have hpos : (0 : ℚ) < d := by exact_mod_cast hd
  have hnlow : (2 : ℚ) ^ (n.log2 : Int) ≤ n := by
    exact_mod_cast Nat.log2_self_le hn.ne'
  have hnhigh : (n : ℚ) < 2 ^ ((n.log2 : Int) + 1) := by
    exact_mod_cast Nat.lt_log2_self (n := n)
  have hdlow : (2 : ℚ) ^ (d.log2 : Int) ≤ d := by
    exact_mod_cast Nat.log2_self_le hd.ne'
  have hdhigh : (d : ℚ) < 2 ^ ((d.log2 : Int) + 1) := by
    exact_mod_cast Nat.lt_log2_self (n := d)
  obtain ⟨k, hk⟩ : ∃ k : Int, k = (n.log2 : Int) - (d.log2 : Int) := ⟨_, rfl⟩
  rw [← hk, lt_div_iff₀ hpos, div_lt_iff₀ hpos]
  constructor
  · calc (2 : ℚ) ^ (k - 1) * d < 2 ^ (k - 1) * 2 ^ ((d.log2 : Int) + 1) := by gcongr
      _ = 2 ^ (n.log2 : Int) := by
        rw [← zpow_add₀ (by norm_num)]
        congr 1
        omega
      _ ≤ n := hnlow
  · calc (n : ℚ) < 2 ^ ((n.log2 : Int) + 1) := hnhigh
      _ = 2 ^ (k + 1) * 2 ^ (d.log2 : Int) := by
        rw [← zpow_add₀ (by norm_num)]
        congr 1
        omega
      _ ≤ 2 ^ (k + 1) * d := by gcongr

/-- The leading bit of a quotient: it is at least that power of two, and less than the next one. -/
theorem leading_spec (hn : 0 < n) (hd : 0 < d) :
    (2 : ℚ) ^ leading n d ≤ (n : ℚ) / d ∧ (n : ℚ) / d < 2 ^ (leading n d + 1) := by
  have hpos : (0 : ℚ) < d := by exact_mod_cast hd
  obtain ⟨hlow, hhigh⟩ := quotient_log2 hn hd
  obtain ⟨k, hk⟩ : ∃ k : Int, k = (n.log2 : Int) - (d.log2 : Int) := ⟨_, rfl⟩
  rw [← hk] at hlow hhigh
  -- the question that is asked about the power in the middle
  have hbelow : (if 0 ≤ k then decide (n < d * twoTo k.toNat) else decide (n * twoTo (-k).toNat < d)) =
      decide ((n : ℚ) / d < 2 ^ k) := by
    split_ifs with hk0 <;> refine decide_eq_decide.mpr ?_
    · rw [← Nat.cast_lt (α := ℚ), cast_mul_twoTo d hk0, div_lt_iff₀ hpos, mul_comm]
    · rw [← Nat.cast_lt (α := ℚ), cast_mul_twoTo n (by omega), zpow_neg, ← div_eq_mul_inv,
        div_lt_iff₀ (by positivity), div_lt_iff₀ hpos, mul_comm]
  unfold leading
  simp only [← hk, hbelow]
  by_cases hb : (n : ℚ) / d < 2 ^ k
  · simp only [hb, decide_true, if_true, Int.sub_add_cancel]
    exact ⟨hlow.le, trivial⟩
  · simp only [hb, decide_false, Bool.false_eq_true, if_false]
    exact ⟨not_lt.mp hb, hhigh⟩

/-! ## Rounding to a format -/

section

variable {t : ℚ}

/-- The integer nearest to a quotient between two powers of two is between them. -/
theorem ToNearest.bounds (hr : ToNearest t r) (hlow : k = 0 ∨ 2 ^ d ≤ t) (hhigh : t < 2 ^ (d + 1)) :
    (k = 0 ∨ 2 ^ d ≤ r) ∧ r ≤ 2 ^ (d + 1) := by
  constructor
  · refine hlow.imp_right fun hle => ?_
    by_contra hlt
    have hcast : ((r + 1 : Nat) : ℚ) ≤ (2 ^ d : Nat) := by exact_mod_cast not_le.mp hlt
    push_cast at hcast
    linarith [hr.high]
  · by_contra hlt
    have hcast : ((2 ^ (d + 1) + 1 : Nat) : ℚ) ≤ r := by exact_mod_cast not_le.mp hlt
    push_cast at hcast
    linarith [hr.low]

/-- The last bit of the fraction is that of the bits. -/
theorem Format.bits_even (hf : 1 ≤ f.fraction) (k : Nat) (hr : r % 2 = 0) :
    (k * 2 ^ f.fraction + r) % 2 = 0 := by
  obtain ⟨x, hx⟩ := Nat.exists_eq_add_of_le' hf
  have hwhole : k * 2 ^ f.fraction = k * 2 ^ x * 2 := by rw [hx, Nat.pow_succ, Nat.mul_assoc]
  omega

/-- A quotient that is rounded in units of the last place is half-way at most below the number. -/
theorem Format.above_of_toNearest (hf : 1 ≤ f.fraction) (hr : ToNearest t r)
    (hlow : k = 0 ∨ 2 ^ f.fraction ≤ t) (hhigh : t < 2 ^ (f.fraction + 1)) :
    f.Above (t * 2 ^ ((k : Int) + f.least)) (k * 2 ^ f.fraction + r) := by
  obtain ⟨hleast, hmost⟩ := hr.bounds hlow hhigh
  have hself := Format.toRat_scaled hmost hleast
  have hunit : (0 : ℚ) < 2 ^ ((k : Int) + f.least) := by positivity
  intro c hc
  unfold Format.mid
  rw [hc, hself]
  by_cases hfirst : k = 0 ∨ 2 ^ f.fraction ≤ r - 1
  · have hone : 0 < 2 ^ f.fraction := Nat.two_pow_pos _
    have hpos : 1 ≤ r := by
      rcases hfirst with rfl | hle
      · omega
      · omega
    obtain rfl : c = k * 2 ^ f.fraction + (r - 1) := by omega
    have hbefore := Format.toRat_scaled (Nat.le_trans (Nat.sub_le r 1) hmost) hfirst
    have hcast : ((r - 1 : Nat) : ℚ) = r - 1 := by rw [Nat.cast_sub hpos, Nat.cast_one]
    rw [hbefore, hcast]
    refine ⟨by nlinarith [hr.low], fun heq => Format.bits_even hf k (hr.even (.inl ?_))⟩
    refine mul_right_cancel₀ hunit.ne' ?_
    linarith
  · -- the first of the numbers with this last place is no larger than the quotient
    obtain ⟨hk, hr'⟩ := not_or.mp hfirst
    have hle : (r : ℚ) ≤ t := by
      obtain rfl : r = 2 ^ f.fraction := by
        have := hleast.resolve_left hk
        omega
      exact_mod_cast hlow.resolve_left hk
    have hrat : (r : ℚ) * 2 ^ ((k : Int) + f.least) ≤ t * 2 ^ ((k : Int) + f.least) := by gcongr
    have hbelow := f.toRat_strictMono (Nat.lt_succ_self c)
    rw [Nat.succ_eq_add_one, hc, hself] at hbelow
    exact ⟨by linarith, fun heq => by linarith⟩

/-- It is half-way at most above the number, too. -/
theorem Format.below_of_toNearest (hf : 1 ≤ f.fraction) (hr : ToNearest t r)
    (hlow : k = 0 ∨ 2 ^ f.fraction ≤ t) (hhigh : t < 2 ^ (f.fraction + 1)) :
    f.Below (t * 2 ^ ((k : Int) + f.least)) (k * 2 ^ f.fraction + r) := by
  obtain ⟨hleast, hmost⟩ := hr.bounds hlow hhigh
  have hself := Format.toRat_scaled hmost hleast
  have hunit : (0 : ℚ) < 2 ^ ((k : Int) + f.least) := by positivity
  unfold Format.Below Format.mid
  rw [hself]
  rcases Nat.lt_or_eq_of_le hmost with hlt | rfl
  · rw [Format.toRat_succ hlt hleast]
    refine ⟨by nlinarith [hr.high], fun heq => Format.bits_even hf k (hr.even (.inr ?_))⟩
    refine mul_right_cancel₀ hunit.ne' ?_
    linarith
  · -- the last of the numbers with this last place is larger than the quotient
    have habove := f.toRat_strictMono (Nat.lt_succ_self (k * 2 ^ f.fraction + 2 ^ (f.fraction + 1)))
    have hrat : t * 2 ^ ((k : Int) + f.least) < 2 ^ (f.fraction + 1) * 2 ^ ((k : Int) + f.least) := by
      gcongr
    rw [hself] at habove
    push_cast at *
    exact ⟨by linarith, fun heq => by linarith⟩

end

/-- Smaller bits are below the quotient too. -/
theorem Format.Above.mono (h : f.Above q b) (hc : c < b) : f.Above q c := by
  obtain ⟨a, rfl⟩ := Nat.exists_eq_add_of_lt hc
  rintro x rfl
  have hmid := f.mid_strictMono (show x < x + 1 + a by omega)
  have hlast := (h (x + 1 + a) rfl).1
  exact ⟨by linarith, fun heq => by linarith⟩

theorem Format.rounds_zero (f : Format) : f.Rounds 0 0 := by
  have hfirst := f.toRat_strictMono Nat.zero_lt_one
  rw [f.toRat_zero] at hfirst
  refine Format.rounds_iff.mpr ⟨Nat.zero_le _, fun c hc => absurd hc (Nat.succ_ne_zero c), fun _ => ?_⟩
  unfold Format.Below Format.mid
  rw [f.toRat_zero]
  exact ⟨by linarith, fun _ => rfl⟩

/-- **The bits of a rounded quotient** are those of the nearest number. -/
theorem Format.rounds_round (hf : 1 ≤ f.fraction) (hd : 0 < d) :
    f.Rounds ((n : ℚ) / d) (f.round n d) := by
  unfold Format.round
  split_ifs with hn
  · rw [hn, Nat.cast_zero, zero_div]
    exact f.rounds_zero
  obtain ⟨hlow, hhigh⟩ := leading_spec (Nat.pos_of_ne_zero hn) hd
  obtain ⟨e, he⟩ : ∃ e : Int, e = max (leading n d - f.fraction) f.least := ⟨_, rfl⟩
  obtain ⟨k, hk⟩ : ∃ k : Nat, k = (e - f.least).toNat := ⟨_, rfl⟩
  have hexp : (k : Int) + f.least = e := by omega
  have hunit : (0 : ℚ) < 2 ^ e := by positivity
  have hround := toNearest_roundScaled (n := n) hd e
  have hle : k = 0 ∨ (2 : ℚ) ^ f.fraction ≤ (n : ℚ) / d / 2 ^ e := by
    rcases Nat.eq_zero_or_pos k with h0 | hpos
    · exact .inl h0
    · right
      rw [le_div_iff₀ hunit, ← zpow_natCast, ← zpow_add₀ (by norm_num)]
      have hlast : (f.fraction : Int) + e = leading n d := by omega
      rw [hlast]
      exact hlow
  have hlt : (n : ℚ) / d / 2 ^ e < 2 ^ (f.fraction + 1) := by
    rw [div_lt_iff₀ hunit, ← zpow_natCast, ← zpow_add₀ (by norm_num)]
    refine lt_of_lt_of_le hhigh (zpow_le_zpow_right₀ (by norm_num) ?_)
    push_cast
    omega
  have habove := Format.above_of_toNearest hf hround hle hlt
  have hbelow := Format.below_of_toNearest hf hround hle hlt
  rw [hexp, div_mul_cancel₀ _ hunit.ne'] at habove hbelow
  simp only [← he, ← hk, twoTo_eq]
  rw [Format.rounds_iff]
  rcases le_or_gt (k * 2 ^ f.fraction + roundScaled n d e) f.infinity with hb | hb
  · rw [Nat.min_eq_left hb]
    exact ⟨hb, habove, fun _ => hbelow⟩
  · rw [Nat.min_eq_right hb.le]
    exact ⟨Nat.le_refl _, habove.mono hb, fun h => absurd h (Nat.lt_irrefl _)⟩

/-! ## Very large and very small quotients -/

/-- What is past all numbers becomes infinity. -/
theorem Format.rounds_of_large (hq : f.toRat f.infinity ≤ q) : f.Rounds q b ↔ b = f.infinity := by
  rw [Format.rounds_iff]
  constructor
  · rintro ⟨hb, -, hbelow⟩
    by_contra hne
    have hlt : b < f.infinity := Nat.lt_of_le_of_ne hb hne
    have hmid := (hbelow hlt).1
    have hnext := f.toRat_strictMono (Nat.lt_succ_self b)
    have hlast : f.toRat (b + 1) ≤ f.toRat f.infinity := f.toRat_strictMono.monotone hlt
    rw [Nat.succ_eq_add_one] at hnext
    unfold Format.mid at hmid
    linarith
  · rintro rfl
    refine ⟨Nat.le_refl _, fun c hc => ?_, fun h => absurd h (Nat.lt_irrefl _)⟩
    have hlt := f.toRat_strictMono (Nat.lt_succ_self c)
    rw [Nat.succ_eq_add_one] at hlt
    unfold Format.mid
    rw [hc] at hlt ⊢
    exact ⟨by linarith, fun heq => by linarith⟩

/-- What is nearer to zero than to any other number becomes zero. -/
theorem Format.rounds_of_small (hq : q < f.mid 0) : f.Rounds q b ↔ b = 0 := by
  rw [Format.rounds_iff]
  constructor
  · rintro ⟨-, habove, -⟩
    cases b with
    | zero => rfl
    | succ b =>
      have hmono := f.mid_strictMono.monotone (Nat.zero_le b)
      exact absurd hq (not_lt.mpr (hmono.trans (habove b rfl).1))
  · rintro rfl
    exact ⟨Nat.zero_le _, fun c hc => absurd hc (Nat.succ_ne_zero c), fun _ => ⟨hq.le, fun _ => rfl⟩⟩

end RowStream.Binary

namespace RowStream.Double

open Binary

variable {x : Double} {n d m : Nat} {negative : Bool} {q : ℚ}

/-- The double has the sign, and without it is the nearest to the quotient. -/
def Nearest (x : Double) (negative : Bool) (q : ℚ) : Prop :=
  x.isNegative = negative ∧ double.Rounds q x.magnitude

/-- Sign and magnitude are side by side in the bits. -/
theorem of_ofMagnitude (negative : Bool) (hm : m < twoTo 63) :
    (ofMagnitude negative m).isNegative = negative ∧ (ofMagnitude negative m).magnitude = m := by
  have htop : twoTo 63 = 9223372036854775808 := rfl
  rw [htop] at hm
  unfold isNegative magnitude ofMagnitude
  cases negative with
  | true =>
    have hbits : (UInt64.ofNat (m + twoTo 63)).toNat = m + twoTo 63 := by
      simp only [UInt64.toNat_ofNat', htop]
      omega
    rw [if_pos rfl, hbits, htop]
    exact ⟨decide_eq_true (by omega), by omega⟩
  | false =>
    have hbits : (UInt64.ofNat m).toNat = m := by
      simp only [UInt64.toNat_ofNat']
      omega
    rw [if_neg Bool.false_ne_true, hbits, htop]
    exact ⟨decide_eq_false (by omega), by omega⟩

/-- **A quotient becomes the nearest double.** -/
theorem nearest_ofQuotient (negative : Bool) (n : Nat) (hd : 0 < d) :
    (ofQuotient negative n d).Nearest negative (n / d) := by
  have hround : double.Rounds ((n : ℚ) / d) (double.round n d) := Format.rounds_round (by decide) hd
  have hlt : double.infinity < twoTo 63 := by decide
  obtain ⟨hsign, hmagnitude⟩ := of_ofMagnitude negative (Nat.lt_of_le_of_lt hround.bounded hlt)
  exact ⟨hsign, hmagnitude ▸ hround⟩

/-- **An integer becomes the nearest double.** -/
theorem nearest_ofInt (n : Int) : (ofInt n).Nearest (decide (n < 0)) n.natAbs := by
  have h := nearest_ofQuotient (decide (n < 0)) n.natAbs Nat.one_pos
  rwa [Nat.cast_one, div_one] at h

end RowStream.Double
