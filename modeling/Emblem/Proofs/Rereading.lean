/-
Module: Emblem.Proofs.Rereading
Purpose: Floats read back from their texts in documents. Every finite float is read back as a finite one
  that some roundings may have moved, and as itself if its digits are few and its power of ten is small.
Main exports: near_reread, isBrief, reread_of_isBrief, Rereads, reloaded, rereads_reloaded
-/
import Emblem.Proofs.FloatScaling
import Emblem.Proofs.SpelledFloats

namespace Emblem.Number

open Float.Model (Format)
open Float.Model.UnpackedFloat (Sign)
open Json (floatOfParts floatOfNat powerOfTen)

/-! ### Scaling -/

section Scaling

/-- The sign is put on last. -/
theorem floatOfParts_signed (negative : Bool) (c : Nat) (k : Int) :
    floatOfParts negative c k = (floatOfParts false c k).map fun y => if negative then -y else y := by
  unfold floatOfParts
  dsimp only
  split
  · simp
  · split
    · split <;> simp
    · split <;> simp

theorem isInf_eq_false {y : Float} (finite : y.isFinite) : y.isInf = false := by
  have shape : (binary y).isFinite := finite
  have same : y.isInf = (binary y).isInf := rfl
  rw [same]
  cases found : binary y with
  | notANumber => rfl
  | infinity s =>
      rw [found] at shape
      cases shape
  | zero s => rfl
  | finite s m e m_pos => rfl

theorem beq_zero_eq_false {x : Float} (nonzero : value x ≠ 0) : (x == 0) = false := by
  rw [Bool.eq_false_iff]
  intro zero
  apply nonzero
  rcases (Float.beq_iff_ne_nan_and_eq.1 zero).2.2 with rfl | ⟨rfl, _⟩ | ⟨rfl, _⟩ <;> rfl

theorem natCast_lt_overflow {n : Nat} (below : n < (2 ^ 54 - 1) * 2 ^ 970) : (n : ℚ) < overflow := by
  have cast : (n : ℚ) < (((2 ^ 54 - 1) * 2 ^ 970 : ℕ) : ℚ) := Nat.cast_lt.2 below
  refine cast.trans_eq ?_
  rw [overflow, zpow_ofNat, Nat.cast_mul, Nat.cast_pow, Nat.cast_sub (by norm_num)]
  norm_num

/-- A natural as a float. -/
theorem floatOfNat_spec {c : Nat} (fits : c < 2 ^ 64) :
    (floatOfNat c).isFinite ∧ Rounds c (value (floatOfNat c)) := by
  have rounded := isRounded_floatOfNat fits
  have finite : (floatOfNat c).isFinite := by
    rw [rounded.isFinite_iff, abs_of_nonneg (Nat.cast_nonneg c)]
    have limit : 2 ^ 64 < (2 ^ 54 - 1) * 2 ^ 970 := by decide +kernel
    exact natCast_lt_overflow (fits.trans limit)
  exact ⟨finite, rounded.rounds finite⟩

theorem rounds_one : Rounds 1 1 := by
  have digits : (1 : ℚ) = ((2 ^ 52 : ℤ) : ℚ) * 2 ^ (-52 : ℤ) := by
    rw [zpow_neg, zpow_ofNat]
    norm_num
  exact .of_fits (by norm_num) digits (by norm_num) (.inr (by norm_num))

/-- A power of ten as a float. -/
theorem powerOfTen_spec {n : Nat} (limit : n ≤ 308) : (powerOfTen n).isFinite ∧
    Rounds (10 ^ n) (value (powerOfTen n)) ∧ 1 ≤ value (powerOfTen n) := by
  have rounded := isRounded_powerOfTen limit
  have one : (1 : ℚ) ≤ 10 ^ n := one_le_pow₀ (by norm_num)
  have finite : (powerOfTen n).isFinite := by
    rw [rounded.isFinite_iff, abs_of_nonneg (by positivity)]
    have powers : ∀ n ≤ 308, 10 ^ n < (2 ^ 54 - 1) * 2 ^ 970 := by decide +kernel
    have below := natCast_lt_overflow (powers n limit)
    rwa [Nat.cast_pow] at below
  have rounds := rounded.rounds finite
  exact ⟨finite, rounds, rounds_one.mono rounds one⟩

/-- Dividing by a power of ten. -/
theorem div_powerOfTen {x : Float} {n : Nat} (finite : x.isFinite) (limit : n ≤ 308) :
    (x / powerOfTen n).isFinite ∧ Near 4 (value x / 10 ^ n) (value (x / powerOfTen n)) := by
  obtain ⟨finite', rounds, one⟩ := powerOfTen_spec limit
  have positive : 0 < value (powerOfTen n) := by linarith
  have rounded := isRounded_div finite finite' positive.ne'
  have here : (x / powerOfTen n).isFinite := by
    rw [rounded.isFinite_iff, abs_div, abs_of_pos positive]
    exact (div_le_self (abs_nonneg _) one).trans_lt (abs_value_lt_overflow finite)
  have ten : (0 : ℚ) < 10 ^ n := by positivity
  have large : (1 : ℚ) ≤ |10 ^ n| := by
    rw [abs_of_pos ten]
    exact one_le_pow₀ (by norm_num)
  have divisor := Near.divisor (rounds.relative large) ten (value x)
  have near := divisor.trans (.of_rounds (rounded.rounds here)) (by norm_num)
  exact ⟨here, near⟩

/-- Multiplying by a power of ten. -/
theorem mul_powerOfTen {x : Float} {n : Nat} (finite : x.isFinite) (limit : n ≤ 308)
    (here : (x * powerOfTen n).isFinite) : Near 3 (value x * 10 ^ n) (value (x * powerOfTen n)) := by
  obtain ⟨finite', rounds, _⟩ := powerOfTen_spec limit
  have rounded := isRounded_mul finite finite'
  have large : (1 : ℚ) ≤ |10 ^ n| := by
    rw [abs_of_nonneg (by positivity)]
    exact one_le_pow₀ (by norm_num)
  have factor := Near.scale (rounds.relative large) (value x)
  rw [mul_comm _ (value x), mul_comm _ (value x)] at factor
  have near := factor.trans (.of_rounds (rounded.rounds here)) (by norm_num)
  exact near

/-- What is made of parts with a negative power of ten. -/
theorem exists_quotient {c : Nat} {k : Int} (fits : c < 2 ^ 64) (positive : 0 < c) (below : k < 0)
    (least : -616 ≤ k) : ∃ y, floatOfParts false c k = some y ∧ y.isFinite ∧
      Near 11 (c * 10 ^ k) (value y) := by
  obtain ⟨finite, rounds⟩ := floatOfNat_spec fits
  have large : (1 : ℚ) ≤ |(c : ℚ)| := by
    rw [abs_of_nonneg (Nat.cast_nonneg c)]
    exact_mod_cast positive
  have natural := Near.of_relative (rounds.relative large)
  have power : (c : ℚ) * 10 ^ k = c / 10 ^ k.natAbs := by
    have exponent : k = -(k.natAbs : ℤ) := by omega
    rw [exponent, zpow_neg, Int.natAbs_neg, Int.natAbs_natCast, zpow_natCast, div_eq_mul_inv]
  have written : floatOfParts false c k =
      some (Json.divideByPower (k.natAbs / 308 + 1) (floatOfNat c) k.natAbs) := if_pos below
  rw [written, power]
  generalize found : k.natAbs = n at *
  have one : ∀ j : Nat, (1 : ℚ) ≤ 10 ^ j := fun j => one_le_pow₀ (by norm_num)
  refine ⟨_, rfl, ?_⟩
  -- What is further down than the least power of ten is reached in two steps.
  rcases Nat.lt_or_ge 308 n with far | close
  · obtain ⟨finite₁, near₁⟩ := div_powerOfTen finite (le_refl 308)
    obtain ⟨finite₂, near₂⟩ := div_powerOfTen (n := n - 308) finite₁ (by omega)
    have nonzero : value (floatOfNat c) ≠ 0 := by
      have above := rounds_one.mono rounds (by exact_mod_cast positive)
      linarith
    obtain ⟨r, more⟩ : ∃ r, n / 308 = r + 1 := ⟨n / 308 - 1, by omega⟩
    have twice : Json.divideByPower (n / 308 + 1) (floatOfNat c) n =
        floatOfNat c / powerOfTen 308 / powerOfTen (n - 308) := by
      have limit : Json.powerLimit = 308 := rfl
      rw [more, Json.divideByPower, limit, if_neg (not_le.2 far), beq_zero_eq_false nonzero,
        if_neg Bool.false_ne_true, Json.divideByPower, limit, if_pos (by omega)]
    have split : (c : ℚ) / 10 ^ n = c / 10 ^ 308 / 10 ^ (n - 308) := by
      rw [div_div, ← pow_add, Nat.add_sub_of_le far.le]
    rw [twice, split]
    have first := ((natural.div (one 308)).trans near₁ (by norm_num)).div (one (n - 308))
    have near := first.trans near₂ (by norm_num)
    exact ⟨finite₂, near⟩
  · obtain ⟨finite', near⟩ := div_powerOfTen finite close
    have once : Json.divideByPower (n / 308 + 1) (floatOfNat c) n = floatOfNat c / powerOfTen n := if_pos close
    rw [once]
    exact ⟨finite', ((natural.div (one n)).trans near (by norm_num)).weaken (by norm_num)⟩

/-- The product of two numbers that were rounded up stays in range, if what it stands for belongs to none of
the two greatest floats. -/
theorem product_lt_overflow {v w x y : ℚ} {m : Nat} {e : ℤ} (fits : m < 2 ^ 53) (greatest : e ≤ 971)
    (inner : e ≤ 970 ∨ m < 2 ^ 53 - 2) (high : v * w ≤ (m + 1 / 2) * 2 ^ e) (nonneg : 0 ≤ v)
    (nonneg' : 0 ≤ y) (nearX : x ≤ v + v / 2 ^ 53) (nearY : y ≤ w + w / 2 ^ 53) : x * y < overflow := by
  have grown : x * y ≤ (m + 1 / 2) * 2 ^ e * (1 + 1 / 2 ^ 53) ^ 2 := calc
    x * y ≤ (v + v / 2 ^ 53) * (w + w / 2 ^ 53) := mul_le_mul nearX nearY nonneg' (by positivity)
    _ = v * w * (1 + 1 / 2 ^ 53) ^ 2 := by ring
    _ ≤ (m + 1 / 2) * 2 ^ e * (1 + 1 / 2 ^ 53) ^ 2 := mul_le_mul_of_nonneg_right high (by positivity)
  refine grown.trans_lt ?_
  have fitsCast : (m : ℚ) + 1 ≤ 2 ^ 53 := by exact_mod_cast fits
  rcases inner with lower | fewer
  · calc
      ((m : ℚ) + 1 / 2) * 2 ^ e * (1 + 1 / 2 ^ 53) ^ 2 ≤ 2 ^ 53 * 2 ^ (970 : ℤ) * (1 + 1 / 2 ^ 53) ^ 2 := by
        refine mul_le_mul_of_nonneg_right ?_ (by positivity)
        exact mul_le_mul (by linarith) (two_zpow_le lower) (two_zpow_pos e).le (by norm_num)
      _ = 2 ^ 53 * (1 + 1 / 2 ^ 53) ^ 2 * 2 ^ (970 : ℤ) := by ring
      _ < (2 ^ 54 - 1) * 2 ^ (970 : ℤ) := mul_lt_mul_of_pos_right (by norm_num) (two_zpow_pos 970)
  · have fewerCast : (m : ℚ) + 3 ≤ 2 ^ 53 := by exact_mod_cast (by omega : m + 3 ≤ 2 ^ 53)
    calc
      ((m : ℚ) + 1 / 2) * 2 ^ e * (1 + 1 / 2 ^ 53) ^ 2 ≤
          (2 ^ 53 - 5 / 2) * 2 ^ (971 : ℤ) * (1 + 1 / 2 ^ 53) ^ 2 := by
        refine mul_le_mul_of_nonneg_right ?_ (by positivity)
        exact mul_le_mul (by linarith) (two_zpow_le greatest) (two_zpow_pos e).le (by norm_num)
      _ = (2 ^ 53 - 5 / 2) * (1 + 1 / 2 ^ 53) ^ 2 * 2 ^ (971 : ℤ) := by ring
      _ < (2 ^ 53 - 1 / 2) * 2 ^ (971 : ℤ) := mul_lt_mul_of_pos_right (by norm_num) (two_zpow_pos 971)
      _ = overflow := overflow_eq_units.symm

theorem le_of_relative {x y : ℚ} (nonneg : 0 ≤ x) (part : |x - y| ≤ |x| / 2 ^ 53) : y ≤ x + x / 2 ^ 53 := by
  rw [abs_of_nonneg nonneg] at part
  linarith [(abs_le.1 part).1]

/-- A great float is read back as a product that does not overflow. -/
theorem isFinite_product {m : Nat} {e : ℤ} (m_pos : 0 < m) (fits : m < 2 ^ 53) (least : -1074 ≤ e)
    (greatest : e ≤ 971) (nonneg : 0 ≤ (shortest Format.binary64 .toEven m e).exponent) :
    (floatOfNat (shortest Format.binary64 .toEven m e).significand *
      powerOfTen (shortest Format.binary64 .toEven m e).exponent.toNat).isFinite := by
  by_cases inner : e ≤ 970 ∨ m < 2 ^ 53 - 2
  · have few := shortest_significand_lt .toEven m_pos fits least greatest
    have positive := shortest_significand_pos .toEven m_pos fits least greatest
    have range := (shortest_exponent_bounds .toEven m_pos fits least greatest).2
    have high := (shortest_units .toEven m_pos fits least greatest).2
    generalize shortest Format.binary64 .toEven m e = d at *
    obtain ⟨k, power⟩ := Int.eq_ofNat_of_zero_le nonneg
    rw [Decimal.value, power, zpow_natCast] at high
    rw [power, Int.toNat_natCast]
    have limit : k ≤ 308 := by omega
    obtain ⟨finite, rounds⟩ := floatOfNat_spec (few.trans (by norm_num))
    obtain ⟨finite', rounds', one⟩ := powerOfTen_spec limit
    have some_digit : (1 : ℚ) ≤ d.significand := by exact_mod_cast positive
    have ten : (1 : ℚ) ≤ 10 ^ k := one_le_pow₀ (by norm_num)
    have above := rounds_one.mono rounds some_digit
    rw [(isRounded_mul finite finite').isFinite_iff, abs_of_nonneg (by positivity)]
    refine product_lt_overflow fits greatest inner high (by positivity) (by linarith) ?_ ?_
    · exact le_of_relative (by positivity) (rounds.relative (by rwa [abs_of_nonneg (by positivity)]))
    · exact le_of_relative (by positivity) (rounds'.relative (by rwa [abs_of_nonneg (by positivity)]))
  -- For the two greatest floats the bound is too wide, so that their digits are looked at.
  · have last : e = 971 := by omega
    have two : m = 2 ^ 53 - 2 ∨ m = 2 ^ 53 - 1 := by omega
    subst last
    rcases two with rfl | rfl <;> decide +kernel

/-- What is made of parts with a power of ten that is not negative, if it is finite. -/
theorem exists_product {c : Nat} {k : Int} (fits : c < 2 ^ 64) (positive : 0 < c) (nonneg : 0 ≤ k)
    (limit : k ≤ 308) (here : (floatOfNat c * powerOfTen k.toNat).isFinite) :
    ∃ y, floatOfParts false c k = some y ∧ y.isFinite ∧ Near 11 (c * 10 ^ k) (value y) := by
  obtain ⟨finite, rounds⟩ := floatOfNat_spec fits
  have large : (1 : ℚ) ≤ |(c : ℚ)| := by
    rw [abs_of_nonneg (Nat.cast_nonneg c)]
    exact_mod_cast positive
  have factor := Near.scale (rounds.relative large) (10 ^ k.toNat)
  have near := mul_powerOfTen finite (by omega) here
  have power : (10 : ℚ) ^ k = 10 ^ k.toNat := by
    rw [← zpow_natCast, Int.toNat_of_nonneg nonneg]
  refine ⟨floatOfNat c * powerOfTen k.toNat, ?_, here, ?_⟩
  · have small : k.toNat ≤ Json.powerLimit := by
      have powers : Json.powerLimit = 308 := rfl
      omega
    unfold floatOfParts
    dsimp only
    rw [if_neg (not_lt.2 nonneg), if_pos small, isInf_eq_false here]
    rfl
  · rw [power]
    exact (factor.trans near (by norm_num)).weaken (by norm_num)

end Scaling

theorem Decimal.shown_value (d : Decimal) : d.shown.value = d.value := by
  unfold Decimal.shown
  split
  case isTrue whole =>
      have power : (10 : ℚ) ^ d.exponent = 10 ^ d.exponent.toNat := by
        rw [← zpow_natCast, Int.toNat_of_nonneg whole.1]
      simp only [Decimal.value, Nat.pow_eq]
      rw [power, zpow_neg_one, Nat.cast_mul, Nat.cast_pow, pow_succ]
      push_cast
      field_simp
  case isFalse => rfl

/-- The digits of a float are made into a finite float again, which some roundings may have moved. -/
theorem exists_floatOfParts {m : Nat} {e : ℤ} (m_pos : 0 < m) (fits : m < 2 ^ 53) (least : -1074 ≤ e)
    (greatest : e ≤ 971) : ∃ y, floatOfParts false (shortest Format.binary64 .toEven m e).shown.significand
      (shortest Format.binary64 .toEven m e).shown.exponent = some y ∧ y.isFinite ∧
      Near 11 (shortest Format.binary64 .toEven m e).value (value y) := by
  have few := shortest_significand_lt .toEven m_pos fits least greatest
  have positive := shortest_significand_pos .toEven m_pos fits least greatest
  obtain ⟨low, high⟩ := shortest_exponent_bounds .toEven m_pos fits least greatest
  have product := isFinite_product m_pos fits least greatest
  generalize shortest Format.binary64 .toEven m e = d at *
  have within : d.shown.significand < 2 ^ 64 := (shown_significand_le few).trans_lt (by decide)
  rw [← d.shown_value, Decimal.value]
  by_cases whole : 0 ≤ d.exponent ∧ d.leading ≤ 15
  · have shown : d.shown = ⟨d.significand * Nat.pow 10 (d.exponent.toNat + 1), -1⟩ := if_pos whole
    rw [shown] at within ⊢
    exact exists_quotient within (Nat.mul_pos positive (Nat.pow_pos (by decide)))
      neg_one_lt_zero (by norm_num)
  · have shown : d.shown = d := if_neg whole
    rw [shown] at within ⊢
    rcases lt_or_ge d.exponent 0 with below | nonneg
    · exact exists_quotient within positive below (by omega)
    · exact exists_product within positive nonneg high (product nonneg)

namespace Near

variable {n : Nat} {x y : ℚ}

theorem refl (x : ℚ) : Near n x x := by
  rw [Near, sub_self, abs_zero]
  positivity

theorem neg (near : Near n x y) : Near n (-x) (-y) := by
  unfold Near at *
  rwa [abs_neg, neg_sub_neg, abs_sub_comm]

theorem signed (near : Near n x y) (s : Sign) :
    Near n (Number.signed s 1 * x) (Number.signed s 1 * y) := by
  cases s with
  | positive => simpa [Number.signed] using near
  | negative => simpa [Number.signed] using near.neg

/-- Sixteen roundings move a number by a part in `2 ^ 49`, or by eight times the least float. -/
theorem of_sixteen (near : Near n x y) (few : n ≤ 16) : |x - y| ≤ |x| / 2 ^ 49 + 2 ^ (-1071 : ℤ) := by
  have least : (2 : ℚ) ^ (-1071 : ℤ) = 2 ^ 4 * 2 ^ (-1075 : ℤ) := by
    rw [← zpow_ofNat, ← zpow_add₀ (by norm_num)]
    norm_num
  have bound : |x - y| ≤ 16 * (|x| / 2 ^ 53 + 2 ^ (-1075 : ℤ)) := near.weaken few
  rw [least]
  linarith

end Near

/-- A float with a sign put on. -/
def withSign (s : Sign) (z : Float) : Float :=
  if s == .negative then -z else z

section Signs

variable {x z : Float} {s : Sign} {m : Nat} {e : ℤ} {m_pos : 0 < m}

theorem isFinite_withSign (finite : z.isFinite) (s : Sign) : (withSign s z).isFinite := by
  cases s with
  | positive => exact finite
  | negative => exact isFinite_neg finite

theorem value_withSign (finite : z.isFinite) (s : Sign) : value (withSign s z) = signed s 1 * value z := by
  cases s with
  | positive => simp [withSign, signed]
  | negative => simp [withSign, signed, value_neg finite]

theorem value_of_shape (shape : binary x = .finite s m e m_pos) : value x = signed s 1 * (m * 2 ^ e) := by
  rw [value, shape, ← mul_assoc, ← signed_eq]
  rfl

/-- The sign stands before the digits, and what is made of these gets it in the end. -/
theorem reread_of_shape (shape : binary x = .finite s m e m_pos)
    (made : floatOfParts false (shortest Format.binary64 .toEven m e).shown.significand
      (shortest Format.binary64 .toEven m e).shown.exponent = some z) : reread x = some (withSign s z) := by
  unfold reread
  rw [shape]
  dsimp only
  rw [floatOfParts_signed, made]
  rfl

end Signs

/-- A finite float is read back as one that some roundings may have moved. -/
theorem near_reread {x : Float} (finite : x.isFinite) :
    ∃ y, reread x = some y ∧ y.isFinite ∧ Near 14 (value x) (value y) := by
  have number : (binary x).isFinite := finite
  cases shape : binary x with
  | notANumber =>
      rw [shape] at number
      cases number
  | infinity s =>
      rw [shape] at number
      cases number
  | zero s =>
      have same : reread x = some x := by rw [reread, shape]
      exact ⟨x, same, finite, .refl _⟩
  | finite s m e m_pos =>
      obtain ⟨⟨fits, least, full⟩, greatest⟩ := Binary.bounds_of_unpack shape
      obtain ⟨z, made, finite', near⟩ := exists_floatOfParts m_pos fits least greatest
      have rounds := rounds_shortest m_pos fits least greatest full .toEven
      have whole := (Near.of_rounds rounds).symm.trans near (by norm_num)
      refine ⟨withSign s z, reread_of_shape shape made, isFinite_withSign finite' s, ?_⟩
      rw [value_of_shape shape, value_withSign finite']
      exact whole.signed s

/-! ### Floats that are themselves -/

/-- Whether a float shows at most 53 binary digits and a power of ten that is a float. -/
def isBrief (x : Float) : Bool :=
  match binary x with
  | .finite _ m e _ =>
    let d := (shortest Format.binary64 .toEven m e).shown
    decide (d.significand < 2 ^ 53) && decide (d.exponent.natAbs ≤ 22)
  | _ => true

/-- Naturals of at most 53 binary digits are not rounded. -/
theorem rounds_natCast {n : Nat} (few : n < 2 ^ 53) : Rounds n n := by
  rcases Nat.eq_zero_or_pos n with rfl | positive
  · rw [Nat.cast_zero]
    exact rounds_zero
  · have digits : n.log2 < 53 := (Nat.log2_lt positive.ne').2 few
    have low : 2 ^ n.log2 ≤ n := Nat.log2_self_le positive.ne'
    have high : n < 2 ^ (n.log2 + 1) := Nat.lt_log2_self
    have full : 2 ^ 52 ≤ n * 2 ^ (52 - n.log2) := calc
      2 ^ 52 = 2 ^ n.log2 * 2 ^ (52 - n.log2) := by
        rw [← Nat.pow_add]
        congr 1
        omega
      _ ≤ n * 2 ^ (52 - n.log2) := Nat.mul_le_mul_right _ low
    have fits : n * 2 ^ (52 - n.log2) < 2 ^ 53 := calc
      n * 2 ^ (52 - n.log2) < 2 ^ (n.log2 + 1) * 2 ^ (52 - n.log2) :=
        Nat.mul_lt_mul_of_pos_right high (Nat.two_pow_pos _)
      _ = 2 ^ 53 := by
        rw [← Nat.pow_add]
        congr 1
        omega
    have least : 52 - n.log2 ≤ 52 := Nat.sub_le _ _
    generalize 52 - n.log2 = j at full fits least
    have number : (n : ℚ) = (((n * 2 ^ j : ℕ) : ℤ) : ℚ) * 2 ^ (-j : ℤ) := by
      rw [zpow_neg, zpow_natCast]
      push_cast
      field_simp
    refine .of_fits (by omega) number ?_ (.inr ?_)
    · rw [Nat.abs_cast]
      exact_mod_cast fits
    · rw [Nat.abs_cast]
      exact_mod_cast full

/-- The place of a number is that of its greatest digits. -/
theorem not_lt_of_same_value {m n : Nat} {e k : ℤ} (fits : m < 2 ^ 53) (least : -1074 ≤ e)
    (full : k = -1074 ∨ 2 ^ 52 ≤ n) (same : (m : ℚ) * 2 ^ e = n * 2 ^ k) : ¬e < k := by
  intro lower
  have many : (2 : ℚ) ^ 52 ≤ n := by exact_mod_cast full.resolve_left (by omega)
  have fitsCast : (m : ℚ) < 2 ^ 53 := by exact_mod_cast fits
  have more : (m : ℚ) * 2 ^ e < n * 2 ^ k := calc
    (m : ℚ) * 2 ^ e < 2 ^ 53 * 2 ^ e := mul_lt_mul_of_pos_right fitsCast (two_zpow_pos e)
    _ = 2 ^ 52 * 2 ^ (e + 1) := by rw [two_zpow_add]; ring
    _ ≤ 2 ^ 52 * 2 ^ k := mul_le_mul_of_nonneg_left (two_zpow_le lower) (by norm_num)
    _ ≤ n * 2 ^ k := mul_le_mul_of_nonneg_right many (two_zpow_pos k).le
  exact absurd same more.ne

theorem same_parts {s s' : Sign} {m n : Nat} {e k : ℤ} {m_pos : 0 < m} {n_pos : 0 < n}
    (left : Binary.Canonical (.finite s m e m_pos)) (right : Binary.Canonical (.finite s' n k n_pos))
    (same : (m : ℚ) * 2 ^ e = n * 2 ^ k) :
    m = n ∧ e = k := by
  have low := not_lt_of_same_value left.1 left.2.1 right.2.2 same
  have high := not_lt_of_same_value right.1 right.2.1 left.2.2 same.symm
  have there : e = k := by omega
  subst there
  exact ⟨by exact_mod_cast mul_right_cancel₀ (two_zpow_pos e).ne' same, rfl⟩

/-- Canonical values that stand for one number, other than zero, are the same. -/
theorem Binary.Canonical.eq_of_value {a b : Binary} (left : a.Canonical) (right : b.Canonical)
    (finite : a.isFinite) (finite' : b.isFinite) (nonzero : a.value ≠ 0) (same : a.value = b.value) : a = b := by
  cases a with
  | notANumber => cases finite
  | infinity s => cases finite
  | zero s => exact absurd rfl nonzero
  | finite s m e m_pos =>
      cases b with
      | notANumber => cases finite'
      | infinity s' => cases finite'
      | zero s' => exact absurd same nonzero
      | finite s' n k n_pos =>
          have above : (0 : ℚ) < m * 2 ^ e := by positivity
          have above' : (0 : ℚ) < n * 2 ^ k := by positivity
          cases s <;> cases s' <;>
            simp only [Binary.value, signed, Int.cast_neg, Int.cast_natCast, neg_mul] at same
          · obtain ⟨parts, there⟩ := same_parts left right (neg_injective same)
            exact Binary.finite_congr parts there
          · linarith
          · linarith
          · obtain ⟨parts, there⟩ := same_parts left right same
            exact Binary.finite_congr parts there

theorem eq_of_value {x y : Float} (finite : x.isFinite) (finite' : y.isFinite) (nonzero : value x ≠ 0)
    (same : value x = value y) : x = y :=
  binary_injective ((canonical_binary x).eq_of_value (canonical_binary y) finite finite' nonzero same)

/-- With few digits and a small power of ten, only the scaling rounds. -/
theorem rounds_floatOfParts {c : Nat} {k : Int} {y : Float} (few : c < 2 ^ 53) (small : k.natAbs ≤ 22)
    (finite : y.isFinite) (made : floatOfParts false c k = some y) : Rounds (c * 10 ^ k) (value y) := by
  obtain ⟨finite₁, rounds⟩ := floatOfNat_spec (few.trans (by norm_num))
  obtain ⟨finite₂, power⟩ := value_powerOfTen small
  have natural : value (floatOfNat c) = c := rounds.unique (rounds_natCast few)
  unfold floatOfParts at made
  dsimp only at made
  split at made
  case isTrue below =>
      have once : Json.divideByPower (k.natAbs / Json.powerLimit + 1) (floatOfNat c) k.natAbs =
          floatOfNat c / powerOfTen k.natAbs := if_pos (small.trans (by decide))
      have nonzero : value (powerOfTen k.natAbs) ≠ 0 := by
        rw [power]
        positivity
      have exponent : (c : ℚ) * 10 ^ k = c / 10 ^ k.natAbs := by
        have negative : k = -(k.natAbs : ℤ) := by omega
        rw [negative, zpow_neg, Int.natAbs_neg, Int.natAbs_natCast, zpow_natCast, div_eq_mul_inv]
      have rounded := isRounded_div finite₁ finite₂ nonzero
      rw [once] at made
      cases made
      rw [natural, power, ← exponent] at rounded
      exact rounded.rounds finite
  case isFalse nonneg =>
      have whole : k.toNat = k.natAbs := by omega
      have exponent : (10 : ℚ) ^ k = 10 ^ k.natAbs := by
        rw [← zpow_natCast, Int.natAbs_of_nonneg (not_lt.1 nonneg)]
      have rounded := isRounded_mul finite₁ finite₂
      rw [whole, if_pos (small.trans (by decide))] at made
      split at made
      case isTrue => cases made
      case isFalse =>
          cases made
          rw [natural, power, ← exponent] at rounded
          exact rounded.rounds finite

/-- Few digits are made into the float that they belong to, since one rounding leads back to it. -/
theorem value_of_few {m : Nat} {e : ℤ} {z : Float} (m_pos : 0 < m) (fits : m < 2 ^ 53) (least : -1074 ≤ e)
    (greatest : e ≤ 971) (full : e = -1074 ∨ 2 ^ 52 ≤ m)
    (few : (shortest Format.binary64 .toEven m e).shown.significand < 2 ^ 53)
    (small : (shortest Format.binary64 .toEven m e).shown.exponent.natAbs ≤ 22) (finite : z.isFinite)
    (made : floatOfParts false (shortest Format.binary64 .toEven m e).shown.significand
      (shortest Format.binary64 .toEven m e).shown.exponent = some z) : value z = m * 2 ^ e := by
  have rounds := rounds_shortest m_pos fits least greatest full .toEven
  rw [← Decimal.shown_value] at rounds
  exact (rounds_floatOfParts few small finite made).unique rounds

theorem reread_of_isBrief {x : Float} (finite : x.isFinite) (brief : isBrief x) : reread x = some x := by
  have number : (binary x).isFinite := finite
  unfold isBrief at brief
  cases shape : binary x with
  | notANumber =>
      rw [shape] at number
      cases number
  | infinity s =>
      rw [shape] at number
      cases number
  | zero s => rw [reread, shape]
  | finite s m e m_pos =>
      rw [shape] at brief
      simp only [Bool.and_eq_true, decide_eq_true_iff] at brief
      obtain ⟨⟨fits, least, full⟩, greatest⟩ := Binary.bounds_of_unpack shape
      obtain ⟨z, made, finite', _⟩ := exists_floatOfParts m_pos fits least greatest
      have magnitude := value_of_few m_pos fits least greatest full brief.1 brief.2 finite' made
      have same : value x = value (withSign s z) := by
        rw [value_of_shape shape, value_withSign finite', magnitude]
      have nonzero : value x ≠ 0 := by
        have positive : (0 : ℚ) < m * 2 ^ e := by positivity
        rw [value_of_shape shape]
        refine mul_ne_zero ?_ positive.ne'
        cases s <;> simp [signed]
      rw [reread_of_shape shape made, eq_of_value finite (isFinite_withSign finite' s) nonzero same]

/-! ### What is read back -/

/-- What a float is read back as: a finite float that is close to it, and the same one if its digits are few
and its power of ten is small. -/
structure Rereads (x y : Float) : Prop where
  read : reread x = some y
  finite : y.isFinite
  close : |value x - value y| ≤ |value x| / 2 ^ 49 + 2 ^ (-1071 : ℤ)
  brief : isBrief x → y = x

/-- The float that is read back; one that is not finite is left as it is. -/
def reloaded (x : Float) : Float :=
  (reread x).getD x

theorem rereads_reloaded {x : Float} (finite : x.isFinite) : Rereads x (reloaded x) := by
  obtain ⟨y, read, finite', near⟩ := near_reread finite
  have same : reloaded x = y := by rw [reloaded, read, Option.getD_some]
  rw [same]
  refine ⟨read, finite', near.of_sixteen (by norm_num), fun brief => ?_⟩
  have again := reread_of_isBrief finite brief
  rw [read] at again
  exact Option.some.inj again

theorem reloaded_eq_iff {x : Float} (finite : x.isFinite) : reloaded x = x ↔ reread x = some x := by
  rw [(rereads_reloaded finite).read, Option.some_inj]

end Emblem.Number
