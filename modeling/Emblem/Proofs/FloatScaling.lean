/-
Module: Emblem.Proofs.FloatScaling
Purpose: Floats scaled by powers of ten. Naturals, powers of ten and quotients are the exact ones
  rounded, and a rounded number is off by a small part of itself, or of the least place.
Main exports: isRounded_div, isRounded_floatOfNat, isRounded_powerOfTen, Rounds.near
-/
import Emblem.Json.Number
import Emblem.Proofs.ShortestDecimal

namespace Emblem.Number

open Float.Model (Format totalExponent)
open Float.Model.UnpackedFloat (Sign accuracyOfFraction div pack roundWithAccuracy unpack)
open Json (floatOfNat powerOfTen)

/-! ### Quotients -/

section Quotients

variable {m n : Nat} {e k : Int}

/-- The exponent in which two significands are divided. -/
def quotientPlace (m : Nat) (e : Int) (n : Nat) (k : Int) : Int :=
  min (e - k) (Format.binary64.targetExponent (totalExponent m e - totalExponent n k))

/-- Two significands are divided to the least place, or to 53 digits. -/
theorem quotient_full (m_pos : 0 < m) (n_pos : 0 < n) (fits : m < 2 ^ 53) :
    quotientPlace m e n k ≤ -1074 ∨
      2 ^ 52 ≤ (m <<< (e - k - quotientPlace m e n k).toNat) / n := by
  have bits : Format.binary64.mantissaBits = 53 := rfl
  have least : Format.binary64.minExponent = -1074 := rfl
  have digits : m.log2 < 53 := (Nat.log2_lt m_pos.ne').2 fits
  have target : quotientPlace m e n k =
      min (e - k) (max ((m.log2 : ℤ) + 1 + e - (n.log2 + 1 + k) - 53) (-1074)) := by
    rw [quotientPlace, Float.Model.Format.targetExponent, totalExponent, totalExponent, bits, least]
    rfl
  rw [target]
  by_cases lowest : min (e - k) (max ((m.log2 : ℤ) + 1 + e - (n.log2 + 1 + k) - 53) (-1074)) ≤ -1074
  · exact .inl lowest
  · right
    have shift : (e - k - min (e - k) (max ((m.log2 : ℤ) + 1 + e - (n.log2 + 1 + k) - 53) (-1074))).toNat =
        53 + n.log2 - m.log2 := by omega
    have low : 2 ^ m.log2 ≤ m := Nat.log2_self_le m_pos.ne'
    have high : n < 2 ^ (n.log2 + 1) := Nat.lt_log2_self
    rw [shift, Nat.le_div_iff_mul_le n_pos, Nat.shiftLeft_eq]
    calc
      2 ^ 52 * n ≤ 2 ^ 52 * 2 ^ (n.log2 + 1) := Nat.mul_le_mul_left _ high.le
      _ = 2 ^ m.log2 * 2 ^ (53 + n.log2 - m.log2) := by
        rw [← Nat.pow_add, ← Nat.pow_add]
        congr 1
        omega
      _ ≤ m * 2 ^ (53 + n.log2 - m.log2) := Nat.mul_le_mul_right _ low

end Quotients

namespace Binary

variable {a b : Binary}

theorem signed_div (s s' : Sign) : (signed (s / s') 1 : ℚ) = signed s 1 / signed s' 1 := by
  have product : signed (s / s') 1 = signed s 1 * signed s' 1 := by cases s <;> cases s' <;> rfl
  rw [product]
  cases s' <;> cases s <;> simp [signed]

/-- Whole units and a remainder stand for their fraction, if there are enough units. -/
theorem rounded_fraction {c n : Nat} {t : Int} (n_pos : 0 < n) (full : t ≤ -1074 ∨ 2 ^ 52 ≤ c / n) (s : Sign) :
    Rounded (roundWithAccuracy Format.binary64 s (c / n) t (accuracyOfFraction (c % n) n))
      (signed s 1 * ((c : ℚ) / n * 2 ^ t)) := by
  have divisor : (0 : ℚ) < n := by exact_mod_cast n_pos
  have low : ((c / n : ℕ) : ℚ) ≤ (c : ℚ) / n := Nat.cast_div_le
  have high : (c : ℚ) / n < (c / n : ℕ) + 1 := by
    rw [div_lt_iff₀ divisor]
    exact_mod_cast Nat.lt_mul_of_div_lt (Nat.lt_succ_self _) n_pos
  have last := lastPlace_of_floor (e := t) low high fun none => by
    rcases full with lowest | many
    · exact lowest
    · rw [none] at many
      exact absurd many (by norm_num)
  have le : t ≤ place (c / n) t := by
    rw [place_eq]
    rcases full with lowest | many
    · omega
    · have digits : 52 ≤ (c / n).log2 := (Nat.le_log2 (by omega)).2 many
      omega
  exact rounded_of_stands (by positivity) (Stands.fraction c n_pos) last le _

/-- Significands are divided after zeros were put behind the first one. -/
theorem value_div {s s' : Sign} {m n j : Nat} {e k t : Int} {m_pos : 0 < m} {n_pos : 0 < n}
    (shift : e - k - (j : ℤ) = t) : value (.finite s m e m_pos) / value (.finite s' n k n_pos) =
      signed (s / s') 1 * (((m <<< j : ℕ) : ℚ) / n * 2 ^ t) := by
  have shifted := shiftLeft_value m (e - k) j
  have direction : (signed s' 1 : ℚ) ≠ 0 := by cases s' <;> simp [signed]
  have unit := (two_zpow_pos k).ne'
  rw [shift] at shifted
  calc
    value (.finite s m e m_pos) / value (.finite s' n k n_pos) =
        signed s 1 * m * 2 ^ e / (signed s' 1 * n * 2 ^ k) := by
      simp only [value]
      rw [signed_eq s m, signed_eq s' n]
    _ = signed s 1 / signed s' 1 * (m * 2 ^ (e - k) / n) := by
      rw [zpow_sub₀ (by norm_num : (2 : ℚ) ≠ 0)]
      field_simp
    _ = signed (s / s') 1 * (((m <<< j : ℕ) : ℚ) / n * 2 ^ t) := by
      rw [signed_div, ← shifted]
      ring

/-- The quotient of canonical values is the exact quotient rounded. -/
theorem Canonical.rounded_div (left : a.Canonical) (finite : a.isFinite) (finite' : b.isFinite)
    (nonzero : b.value ≠ 0) : Rounded (div Format.binary64 a b) (a.value / b.value) := by
  cases b with
  | notANumber => cases finite'
  | infinity s' => cases finite'
  | zero s' => exact absurd rfl nonzero
  | finite s' n k n_pos =>
      cases a with
      | notANumber => cases finite
      | infinity s => cases finite
      | zero s =>
          have absent : value (.zero s) = 0 := rfl
          rw [absent, zero_div]
          exact rounded_zero _
      | finite s m e m_pos =>
          -- The zeros that are put behind the first significand are those up to the place of the quotient.
          have written : div Format.binary64 (.finite s m e m_pos) (.finite s' n k n_pos) =
              roundWithAccuracy Format.binary64 (s / s')
                ((m <<< (e - k - quotientPlace m e n k).toNat) / n) (quotientPlace m e n k)
                (accuracyOfFraction ((m <<< (e - k - quotientPlace m e n k).toNat) % n) n) := rfl
          have full := quotient_full (e := e) (k := k) m_pos n_pos left.1
          have below : quotientPlace m e n k ≤ e - k := min_le_left _ _
          have shift : e - k - ((e - k - quotientPlace m e n k).toNat : ℤ) = quotientPlace m e n k := by omega
          rw [written, value_div shift]
          exact rounded_fraction n_pos full _

end Binary

/-- The quotient of finite floats is the exact one rounded. -/
theorem isRounded_div {x y : Float} (finite : x.isFinite) (finite' : y.isFinite) (nonzero : value y ≠ 0) :
    IsRounded (x / y) (value x / value y) :=
  .of_packed ((canonical_binary x).rounded_div finite finite' nonzero) rfl

/-! ### Naturals and powers of ten -/

/-- A natural below `2 ^ 64` is rounded to a float. -/
theorem isRounded_floatOfNat {n : Nat} (fits : n < 2 ^ 64) : IsRounded (floatOfNat n) n := by
  have rounded := rounded_normalize n 0 .positive
  have same : n.toUInt64.toNat = n := by
    rw [Nat.toUInt64, UInt64.toNat_ofNat', Nat.mod_eq_of_lt fits]
  rw [zpow_zero, mul_one, Int.cast_natCast] at rounded
  refine .of_packed rounded ?_
  have packed : binary (floatOfNat n) = unpack Format.binary64
      (pack Format.binary64 (.normalize Format.binary64 n.toUInt64.toNat 0 .positive)) := rfl
  rw [packed, same]

theorem IsRounded.of_value {x : Float} (finite : x.isFinite) : IsRounded x (value x) :=
  ⟨iff_of_true finite (abs_value_lt_overflow finite), fun _ => rounds_value finite,
    fun infinite => absurd finite infinite⟩

/-- Whether a value is a power of ten. -/
def isPowerOfTen (n : Nat) : Binary → Bool
  | .finite .positive m e _ => m * 2 ^ e.toNat == 10 ^ n * 2 ^ (-e).toNat
  | _ => false

theorem value_of_isPowerOfTen {n : Nat} {b : Binary} (power : isPowerOfTen n b) :
    b.isFinite ∧ b.value = 10 ^ n := by
  unfold isPowerOfTen at power
  split at power
  case h_1 m e m_pos =>
      have two : (2 : ℚ) ^ e * 2 ^ (-e).toNat = 2 ^ e.toNat := Interval.zpow_mul_toNat (by norm_num) e
      have same : (m : ℚ) * 2 ^ e.toNat = 10 ^ n * 2 ^ (-e).toNat := by
        exact_mod_cast beq_iff_eq.1 power
      have unit : (2 : ℚ) ^ (-e).toNat ≠ 0 := by positivity
      rw [← two, ← mul_assoc] at same
      refine ⟨rfl, ?_⟩
      simpa [Binary.value, signed] using mul_right_cancel₀ unit same
  case h_2 => cases power

/-- Small powers of ten are floats. -/
theorem value_powerOfTen {n : Nat} (small : n ≤ 22) :
    (powerOfTen n).isFinite ∧ value (powerOfTen n) = 10 ^ n := by
  have powers : ∀ n < 23, isPowerOfTen n (binary (powerOfTen n)) := by decide +kernel
  exact value_of_isPowerOfTen (powers n (Nat.lt_succ_of_le small))

/-- The power of ten is rounded. -/
theorem isRounded_powerOfTen {n : Nat} (limit : n ≤ 308) : IsRounded (powerOfTen n) (10 ^ n) := by
  rcases Nat.lt_or_ge 22 n with large | small
  · have some_digit : 0 < (1 <<< 53) * 10 ^ n := Nat.mul_pos (by decide) (Nat.pow_pos (by decide))
    have digits : 53 ≤ ((1 <<< 53) * 10 ^ n).log2 := by
      rw [Nat.le_log2 some_digit.ne']
      exact Nat.le_mul_of_pos_right _ (Nat.pow_pos (by decide))
    have le : (-53 : ℤ) ≤ place ((1 <<< 53) * 10 ^ n) (-53) := by
      rw [place_eq]
      omega
    have rounded := rounded_roundWithAccuracy some_digit le .positive
    have number : ((signed .positive ((1 <<< 53) * 10 ^ n) : ℤ) : ℚ) * 2 ^ (-53 : ℤ) = 10 ^ n := by
      have unit : (1 <<< 53 : ℕ) = 2 ^ 53 := rfl
      rw [unit]
      simp only [signed]
      push_cast
      rw [zpow_neg, zpow_ofNat]
      field_simp
      norm_num
    have written : powerOfTen n = ⟨Float.Model.ofScientific 1 n⟩ := by
      unfold powerOfTen Float.ofScientific
      rw [dif_neg (by omega)]
      rfl
    have product : Float.Model.UnpackedFloat.ofScientific Format.binary64 1 n =
        roundWithAccuracy Format.binary64 .positive ((1 <<< 53) * 10 ^ n) (-53) .exact := by
      unfold Float.Model.UnpackedFloat.ofScientific
      have exponents : (2 : ℤ) ^ Format.binary64.exponentBits = 2048 := rfl
      rw [dif_neg (by decide), if_neg (by rw [exponents]; omega), if_neg (by rw [exponents]; omega),
        if_pos (by omega)]
      rfl
    have packed : binary (powerOfTen n) = unpack Format.binary64
        (pack Format.binary64 (Float.Model.UnpackedFloat.ofScientific Format.binary64 1 n)) := by
      rw [written]
      rfl
    rw [product] at packed
    rw [← number]
    exact .of_packed rounded packed
  · obtain ⟨finite, number⟩ := value_powerOfTen small
    rw [← number]
    exact .of_value finite

/-! ### How far rounding goes -/

/-- A number is rounded by at most half a last place: a `2 ^ -53`th of it, or half the least place. -/
theorem Rounds.near {x y : ℚ} (rounds : Rounds x y) :
    |x - y| ≤ |x| / 2 ^ 53 ∨ |x - y| ≤ 2 ^ (-1075 : ℤ) ∧ |x| < 2 ^ (-1021 : ℤ) := by
  obtain ⟨t, q, place, nearest, rfl⟩ := rounds
  have half : |x - q * 2 ^ t| ≤ 1 / 2 * 2 ^ t := nearest.abs_sub_le
  rcases place.full with rfl | full
  · refine .inr ⟨half.trans_eq ?_, place.fits⟩
    have split : (2 : ℚ) ^ (-1074 : ℤ) = 2 * 2 ^ (-1075 : ℤ) := by
      rw [← zpow_one_add₀ (by norm_num)]
      norm_num
    rw [split]
    ring
  · left
    rw [two_zpow_add] at full
    rw [le_div_iff₀ (by norm_num)]
    calc
      |x - q * 2 ^ t| * 2 ^ 53 ≤ 1 / 2 * 2 ^ t * 2 ^ 53 := mul_le_mul_of_nonneg_right half (by norm_num)
      _ = 2 ^ t * 2 ^ (52 : ℤ) := by
        rw [zpow_ofNat]
        ring
      _ ≤ |x| := full

theorem Rounds.relative {x y : ℚ} (rounds : Rounds x y) (large : 1 ≤ |x|) : |x - y| ≤ |x| / 2 ^ 53 := by
  rcases rounds.near with part | ⟨_, small⟩
  · exact part
  · have tiny : (2 : ℚ) ^ (-1021 : ℤ) ≤ 1 := zpow_le_one_of_nonpos₀ (by norm_num) (by norm_num)
    exact absurd large (not_le.2 (small.trans_le tiny))

/-- Two numbers are as near as `n` roundings can leave them: by so many `2 ^ -53`ths and so many halves of
the least place. -/
def Near (n : Nat) (x y : ℚ) : Prop :=
  |x - y| ≤ n * (|x| / 2 ^ 53 + 2 ^ (-1075 : ℤ))

namespace Near

variable {x y z w : ℚ} {n k : Nat}

theorem of_relative (part : |x - y| ≤ |x| / 2 ^ 53) : Near 1 x y := by
  have least := two_zpow_pos (-1075)
  rw [Near, Nat.cast_one, one_mul]
  linarith

theorem of_rounds (rounds : Rounds x y) : Near 1 x y := by
  rcases rounds.near with part | ⟨least, _⟩
  · exact of_relative part
  · have part : 0 ≤ |x| / 2 ^ 53 := by positivity
    rw [Near, Nat.cast_one, one_mul]
    linarith

theorem weaken (near : Near n x y) (le : n ≤ k) : Near k x y := by
  have cast : (n : ℚ) ≤ k := by exact_mod_cast le
  exact near.trans (mul_le_mul_of_nonneg_right cast (by positivity))

/-- Few roundings one after another add up, but for a small part. -/
theorem trans (first : Near n x y) (second : Near k y z) (few : n * k ≤ 2 ^ 53) : Near (n + k + 1) x z := by
  have small : (n : ℚ) * k / 2 ^ 53 ≤ 1 := by
    rw [div_le_one (by norm_num)]
    exact_mod_cast few
  have size : |y| ≤ |x| + n * (|x| / 2 ^ 53 + 2 ^ (-1075 : ℤ)) := by
    have triangle := abs_sub_abs_le_abs_sub y x
    rw [abs_sub_comm] at triangle
    exact (sub_le_iff_le_add'.1 triangle).trans (add_le_add_right first _)
  have unit : (0 : ℚ) ≤ |x| / 2 ^ 53 + 2 ^ (-1075 : ℤ) := by positivity
  have next : |y| / 2 ^ 53 + 2 ^ (-1075 : ℤ) ≤ (|x| / 2 ^ 53 + 2 ^ (-1075 : ℤ)) +
      n * (|x| / 2 ^ 53 + 2 ^ (-1075 : ℤ)) / 2 ^ 53 := by
    have scaled := div_le_div_of_nonneg_right size (by norm_num : (0 : ℚ) ≤ 2 ^ 53)
    rw [add_div] at scaled
    linarith
  have last := mul_le_mul_of_nonneg_left next (Nat.cast_nonneg k : (0 : ℚ) ≤ k)
  unfold Near at *
  generalize |x| / 2 ^ 53 + 2 ^ (-1075 : ℤ) = u at *
  calc
    |x - z| ≤ |x - y| + |y - z| := abs_sub_le x y z
    _ ≤ n * u + k * (u + n * u / 2 ^ 53) := add_le_add first (second.trans last)
    _ = (n + k + n * k / 2 ^ 53) * u := by ring
    _ ≤ ((n + k + 1 : ℕ) : ℚ) * u := by
      refine mul_le_mul_of_nonneg_right ?_ unit
      push_cast
      linarith

/-- What is rounded is near to where it came from. -/
theorem symm (near : Near 1 x y) : Near 2 y x := by
  unfold Near at *
  have triangle := abs_sub_abs_le_abs_sub x y
  have least := two_zpow_pos (-1075)
  have distance := abs_nonneg (x - y)
  rw [abs_sub_comm]
  generalize (2 : ℚ) ^ (-1075 : ℤ) = h at *
  push_cast at near ⊢
  linarith

/-- A scaled part of a number is the same part of the scaled number. -/
theorem scale (part : |x - y| ≤ |x| / 2 ^ 53) (w : ℚ) : Near 1 (x * w) (y * w) := by
  apply of_relative
  rw [← sub_mul, abs_mul, abs_mul, mul_div_right_comm]
  exact mul_le_mul_of_nonneg_right part (abs_nonneg w)

/-- Dividing by more than one brings numbers nearer. -/
theorem div (near : Near n x y) (large : 1 ≤ w) : Near n (x / w) (y / w) := by
  have positive : 0 < w := by linarith
  unfold Near at *
  rw [← sub_div, abs_div, abs_div, abs_of_pos positive, div_le_iff₀ positive]
  refine near.trans ?_
  have least := two_zpow_pos (-1075)
  have more : (2 : ℚ) ^ (-1075 : ℤ) ≤ 2 ^ (-1075 : ℤ) * w := le_mul_of_one_le_right least.le large
  rw [mul_assoc]
  refine mul_le_mul_of_nonneg_left ?_ (Nat.cast_nonneg n)
  rw [add_mul, div_right_comm, div_mul_cancel₀ _ positive.ne']
  linarith

/-- A divisor that is off by a small part puts the quotient off by a little more. -/
theorem divisor (part : |x - y| ≤ |x| / 2 ^ 53) (positive : 0 < x) (w : ℚ) : Near 2 (w / x) (w / y) := by
  rw [abs_of_pos positive] at part
  obtain ⟨low, high⟩ := abs_le.1 part
  have some_part : 0 < y := by linarith
  have double : x ≤ 2 * y := by linarith
  have difference : w / x - w / y = w / x * ((y - x) / y) := by field_simp
  have relative : |(y - x) / y| ≤ 2 / 2 ^ 53 := by
    rw [abs_div, abs_of_pos some_part, div_le_iff₀ some_part, abs_le]
    constructor <;> linarith
  have least := two_zpow_pos (-1075)
  unfold Near
  rw [difference, abs_mul]
  refine (mul_le_mul_of_nonneg_left relative (abs_nonneg _)).trans ?_
  generalize (2 : ℚ) ^ (-1075 : ℤ) = h at *
  push_cast
  linarith

end Near

end Emblem.Number
