/-
Module: Emblem.Proofs.NearestEven
Purpose: Rounding of rational numbers to what 53 binary digits can hold, ties to even, as if there
  were no greatest float. It keeps order and signs, and what it brings to `2 ^ 1024` or above is what
  lies half a last place below that or above.
Main exports: NearestEven, LastPlace, Rounds, Rounds.mono, Rounds.neg, Rounds.of_fits, overflow,
  Rounds.lt_iff
-/
import Mathlib.Algebra.Order.Field.Rat
import Mathlib.Algebra.Order.Field.Power
import Mathlib.Algebra.Order.Ring.Int
import Mathlib.Algebra.Ring.Int.Parity
import Mathlib.Tactic.Linarith
import Mathlib.Tactic.NormNum
import Mathlib.Tactic.Positivity
import Mathlib.Tactic.Ring

namespace Emblem.Number

/-! ### Whole numbers -/

/-- The whole number nearest to a rational one, and the even one of two that are equally near. -/
structure NearestEven (x : ℚ) (q : ℤ) : Prop where
  near : |x - q| ≤ 1 / 2
  even : |x - q| = 1 / 2 → Even q

namespace NearestEven

variable {x y : ℚ} {p q : ℤ}

theorem intCast (q : ℤ) : NearestEven q q := by
  constructor
  · simp
  · intro tie
    norm_num at tie

theorem neg (nearest : NearestEven x q) : NearestEven (-x) (-q) := by
  have turned : |-x - ((-q : ℤ) : ℚ)| = |x - q| := by
    rw [← abs_neg]
    push_cast
    ring_nf
  constructor
  · rw [turned]
    exact nearest.near
  · rw [turned]
    exact fun tie => (nearest.even tie).neg

/-- Only between two numbers that are half way below and above can the order turn, and then both
would be even. -/
theorem mono (first : NearestEven x p) (second : NearestEven y q) (le : x ≤ y) : p ≤ q := by
  by_contra above
  have step : (q : ℚ) + 1 ≤ p := by exact_mod_cast not_le.1 above
  have low := (abs_le.1 first.near).1
  have high := (abs_le.1 second.near).2
  have last : x - p = -(1 / 2) := by linarith
  have next : y - q = 1 / 2 := by linarith
  have follows : p = q + 1 := by
    have cast : (p : ℚ) = q + 1 := by linarith
    exact_mod_cast cast
  have oneEven : Even p := first.even (by rw [last]; norm_num)
  have otherEven : Even q := second.even (by rw [next]; norm_num)
  rw [follows] at oneEven
  exact Int.even_add_one.1 oneEven otherEven

theorem le_of_le (nearest : NearestEven x q) (le : x ≤ p) : q ≤ p :=
  nearest.mono (intCast p) le

theorem ge_of_ge (nearest : NearestEven x q) (le : p ≤ x) : p ≤ q :=
  (intCast p).mono nearest le

end NearestEven

/-! ### Floats -/

/-- The exponent of the last place that a float has for a number: the last of 53 binary digits, but
none below `2 ^ -1074`. -/
structure LastPlace (x : ℚ) (t : ℤ) : Prop where
  least : -1074 ≤ t
  fits : |x| < 2 ^ (t + 53)
  full : t = -1074 ∨ 2 ^ (t + 52) ≤ |x|

/-- A number is rounded to another one in units of its last place. -/
def Rounds (x y : ℚ) : Prop :=
  ∃ t q, LastPlace x t ∧ NearestEven (x / 2 ^ t) q ∧ y = q * 2 ^ t

section Powers

theorem two_zpow_pos (t : ℤ) : (0 : ℚ) < 2 ^ t := by positivity

theorem two_zpow_le {s t : ℤ} (le : s ≤ t) : (2 : ℚ) ^ s ≤ 2 ^ t :=
  zpow_le_zpow_right₀ (by norm_num) le

theorem two_zpow_add (s t : ℤ) : (2 : ℚ) ^ (s + t) = 2 ^ s * 2 ^ t :=
  zpow_add₀ (by norm_num) s t

/-- The nearest multiple of a power of two is at most half of it away. -/
theorem NearestEven.abs_sub_le {x : ℚ} {q t : ℤ} (nearest : NearestEven (x / 2 ^ t) q) :
    |x - q * 2 ^ t| ≤ 1 / 2 * 2 ^ t := by
  have unit := two_zpow_pos t
  have scaled : |x - q * 2 ^ t| = |x / 2 ^ t - q| * 2 ^ t := by
    rw [← abs_of_pos unit, ← abs_mul, abs_of_pos unit, sub_mul, div_mul_cancel₀ _ unit.ne']
  rw [scaled]
  exact mul_le_mul_of_nonneg_right nearest.near unit.le

end Powers

namespace LastPlace

variable {x y : ℚ} {s t : ℤ}

theorem neg (place : LastPlace x t) : LastPlace (-x) t := by
  refine ⟨place.least, ?_, ?_⟩
  · rw [abs_neg]
    exact place.fits
  · rw [abs_neg]
    exact place.full

/-- Greater numbers have no lower last places. -/
theorem mono (first : LastPlace x s) (second : LastPlace y t) (le : |x| ≤ |y|) : s ≤ t := by
  by_contra above
  rcases first.full with lowest | full
  · have := second.least
    omega
  · have wide : (2 : ℚ) ^ (t + 53) ≤ 2 ^ (s + 52) := two_zpow_le (by omega)
    have fits := second.fits
    linarith

theorem lt_units (place : LastPlace x t) : |x / 2 ^ t| < 2 ^ 53 := by
  rw [abs_div, abs_of_pos (two_zpow_pos t), div_lt_iff₀ (two_zpow_pos t)]
  have fits := place.fits
  rw [two_zpow_add] at fits
  calc
    |x| < 2 ^ t * 2 ^ (53 : ℤ) := fits
    _ = 2 ^ 53 * 2 ^ t := by rw [mul_comm]; norm_num

theorem units_ge (place : LastPlace x t) (inner : t ≠ -1074) : 2 ^ 52 ≤ |x / 2 ^ t| := by
  rw [abs_div, abs_of_pos (two_zpow_pos t), le_div_iff₀ (two_zpow_pos t)]
  have full := place.full.resolve_left inner
  rw [two_zpow_add] at full
  calc
    (2 : ℚ) ^ 52 * 2 ^ t = 2 ^ t * 2 ^ (52 : ℤ) := by rw [mul_comm]; norm_num
    _ ≤ |x| := full

end LastPlace

namespace Rounds

variable {x y x' y' : ℚ}

theorem neg (rounds : Rounds x y) : Rounds (-x) (-y) := by
  obtain ⟨t, q, place, nearest, rfl⟩ := rounds
  refine ⟨t, -q, place.neg, ?_, ?_⟩
  · rw [neg_div]
    exact nearest.neg
  · push_cast
    ring

theorem nonneg (rounds : Rounds x y) (start : 0 ≤ x) : 0 ≤ y := by
  obtain ⟨t, q, _, nearest, rfl⟩ := rounds
  have units : (0 : ℤ) ≤ q := by
    apply nearest.ge_of_ge
    rw [Int.cast_zero]
    exact div_nonneg start (two_zpow_pos t).le
  have cast : (0 : ℚ) ≤ q := by exact_mod_cast units
  exact mul_nonneg cast (two_zpow_pos t).le

theorem nonpos (rounds : Rounds x y) (start : x ≤ 0) : y ≤ 0 := by
  have turned := rounds.neg.nonneg (by linarith)
  linarith

theorem mono_of_nonneg (first : Rounds x y) (second : Rounds x' y') (start : 0 ≤ x)
    (le : x ≤ x') : y ≤ y' := by
  obtain ⟨s, p, place, nearest, rfl⟩ := first
  obtain ⟨t, q, place', nearest', rfl⟩ := second
  have ordered : |x| ≤ |x'| := by
    rw [abs_of_nonneg start, abs_of_nonneg (start.trans le)]
    exact le
  rcases (place.mono place' ordered).lt_or_eq with lower | rfl
  · -- The greater number has all of its 53 digits above those of the smaller one.
    have few : p ≤ 2 ^ 53 := by
      apply nearest.le_of_le
      push_cast
      exact ((le_abs_self _).trans_lt place.lt_units).le
    have many : 2 ^ 52 ≤ q := by
      apply nearest'.ge_of_ge
      have least := place.least
      have full := place'.units_ge (by omega)
      rw [abs_of_nonneg (div_nonneg (start.trans le) (two_zpow_pos t).le)] at full
      push_cast
      exact full
    have fewCast : (p : ℚ) ≤ 2 ^ 53 := by exact_mod_cast few
    have manyCast : (2 : ℚ) ^ 52 ≤ q := by exact_mod_cast many
    calc
      (p : ℚ) * 2 ^ s ≤ 2 ^ 53 * 2 ^ s := mul_le_mul_of_nonneg_right fewCast (two_zpow_pos s).le
      _ = 2 ^ 52 * 2 ^ (s + 1) := by rw [two_zpow_add]; ring
      _ ≤ 2 ^ 52 * 2 ^ t := mul_le_mul_of_nonneg_left (two_zpow_le (by omega)) (by norm_num)
      _ ≤ q * 2 ^ t := mul_le_mul_of_nonneg_right manyCast (two_zpow_pos t).le
  · have units : p ≤ q := by
      apply nearest.mono nearest'
      exact div_le_div_of_nonneg_right le (two_zpow_pos s).le
    have cast : (p : ℚ) ≤ q := by exact_mod_cast units
    exact mul_le_mul_of_nonneg_right cast (two_zpow_pos s).le

/-- Rounding keeps order. -/
theorem mono (first : Rounds x y) (second : Rounds x' y') (le : x ≤ x') : y ≤ y' := by
  rcases le_total 0 x with start | below
  · exact first.mono_of_nonneg second start le
  · rcases le_total 0 x' with above | below'
    · exact (first.nonpos below).trans (second.nonneg above)
    · have turned := second.neg.mono_of_nonneg first.neg (by linarith) (by linarith)
      linarith

/-- A number is rounded in one way only. -/
theorem unique (first : Rounds x y) (second : Rounds x y') : y = y' :=
  le_antisymm (first.mono second le_rfl) (second.mono first le_rfl)

theorem abs (rounds : Rounds x y) : Rounds |x| |y| := by
  rcases le_total 0 x with start | below
  · rw [abs_of_nonneg start, abs_of_nonneg (rounds.nonneg start)]
    exact rounds
  · rw [abs_of_nonpos below, abs_of_nonpos (rounds.nonpos below)]
    exact rounds.neg

end Rounds

/-- What is already written with 53 digits, and no place below the least, stays as it is. -/
theorem Rounds.of_fits {n t : ℤ} {x : ℚ} (least : -1074 ≤ t) (value : x = n * 2 ^ t)
    (fits : |n| < 2 ^ 53) (full : t = -1074 ∨ 2 ^ 52 ≤ |n|) : Rounds x x := by
  have size : |x| = |(n : ℚ)| * 2 ^ t := by rw [value, abs_mul, abs_of_pos (two_zpow_pos t)]
  have units : x / 2 ^ t = n := by
    rw [value, mul_div_assoc, div_self (two_zpow_pos t).ne', mul_one]
  refine ⟨t, n, ⟨least, ?_, ?_⟩, ?_, value⟩
  · have fitsCast : |(n : ℚ)| < 2 ^ 53 := by exact_mod_cast fits
    rw [size, add_comm, two_zpow_add]
    exact mul_lt_mul_of_pos_right fitsCast (two_zpow_pos t)
  · refine full.imp_right ?_
    intro full
    have fullCast : (2 : ℚ) ^ 52 ≤ |(n : ℚ)| := by exact_mod_cast full
    rw [size, add_comm, two_zpow_add]
    exact mul_le_mul_of_nonneg_right fullCast (two_zpow_pos t).le
  · rw [units]
    exact .intCast n

/-! ### The greatest float -/

/-- The least number that is rounded to `2 ^ 1024`, which is more than floats can hold. It lies half
a last place below that. -/
def overflow : ℚ := (2 ^ 54 - 1) * 2 ^ (970 : ℤ)

theorem overflow_pos : 0 < overflow :=
  mul_pos (by norm_num) (two_zpow_pos 970)

theorem overflow_eq_units : overflow = (2 ^ 53 - 1 / 2) * 2 ^ (971 : ℤ) := by
  have double : (2 : ℚ) ^ (971 : ℤ) = 2 ^ (1 : ℤ) * 2 ^ (970 : ℤ) := two_zpow_add 1 970
  rw [overflow, double, zpow_one, ← mul_assoc]
  norm_num

theorem lastPlace_overflow : LastPlace overflow 971 := by
  have unit := two_zpow_pos 971
  refine ⟨by norm_num, ?_, .inr ?_⟩
  · rw [abs_of_pos overflow_pos, overflow_eq_units, add_comm, two_zpow_add]
    exact mul_lt_mul_of_pos_right (by norm_num) unit
  · rw [abs_of_pos overflow_pos, overflow_eq_units, add_comm, two_zpow_add]
    exact mul_le_mul_of_nonneg_right (by norm_num) unit.le

theorem rounds_overflow : Rounds overflow (2 ^ (1024 : ℤ)) := by
  have half : overflow / 2 ^ (971 : ℤ) - ((2 ^ 53 : ℤ) : ℚ) = -(1 / 2) := by
    rw [overflow_eq_units, mul_div_assoc, div_self (two_zpow_pos 971).ne']
    norm_num
  refine ⟨971, 2 ^ 53, lastPlace_overflow, ⟨?_, ?_⟩, ?_⟩
  · rw [half]
    norm_num
  · intro _
    exact ⟨2 ^ 52, by norm_num⟩
  · have split : (2 : ℚ) ^ (1024 : ℤ) = 2 ^ (53 : ℤ) * 2 ^ (971 : ℤ) := two_zpow_add 53 971
    rw [split]
    norm_num

/-- Rounding stays below `2 ^ 1024` just if it starts half a last place below it. -/
theorem Rounds.lt_iff {x y : ℚ} (rounds : Rounds x y) :
    |y| < 2 ^ (1024 : ℤ) ↔ |x| < overflow := by
  constructor
  · intro below
    by_contra above
    have reached := rounds_overflow.mono rounds.abs (not_lt.1 above)
    exact absurd below (not_lt.2 reached)
  · intro below
    by_contra reached
    obtain ⟨t, q, place, nearest, value⟩ := rounds.abs
    have low : t ≤ 971 := by
      apply place.mono lastPlace_overflow
      rw [abs_abs]
      exact below.le.trans (le_abs_self _)
    have few : q ≤ 2 ^ 53 := by
      apply nearest.le_of_le
      push_cast
      exact ((le_abs_self _).trans_lt place.lt_units).le
    have fewCast : (q : ℚ) ≤ 2 ^ 53 := by exact_mod_cast few
    have split : (2 : ℚ) ^ (1024 : ℤ) = 2 ^ (53 : ℤ) * 2 ^ (971 : ℤ) := two_zpow_add 53 971
    rw [value, not_lt, split] at reached
    -- With 53 digits, `2 ^ 1024` is reached in the highest place only, and only by rounding up to it.
    have high : t = 971 := by
      by_contra lower
      have wide : (2 : ℚ) ^ t < 2 ^ (971 : ℤ) := zpow_lt_zpow_right₀ (by norm_num) (by omega)
      have less : (q : ℚ) * 2 ^ t < 2 ^ (53 : ℤ) * 2 ^ (971 : ℤ) := calc
        (q : ℚ) * 2 ^ t ≤ 2 ^ 53 * 2 ^ t := mul_le_mul_of_nonneg_right fewCast (two_zpow_pos t).le
        _ < 2 ^ 53 * 2 ^ (971 : ℤ) := mul_lt_mul_of_pos_left wide (by norm_num)
      exact absurd reached (not_le.2 less)
    subst high
    have many : (2 : ℚ) ^ (53 : ℤ) ≤ q := le_of_mul_le_mul_right reached (two_zpow_pos 971)
    have near := (abs_le.1 nearest.near).1
    rw [zpow_ofNat] at many
    have units : (2 : ℚ) ^ 53 - 1 / 2 ≤ |x| / 2 ^ (971 : ℤ) := by
      linarith only [many, near]
    rw [le_div_iff₀ (two_zpow_pos 971), ← overflow_eq_units] at units
    exact absurd below (not_lt.2 units)

end Emblem.Number
