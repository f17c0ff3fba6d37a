/-
Module: Emblem.Proofs.ShortestDecimal
Purpose: The shortest decimal of a float is rounded to it. What the search finds lies among the reals
  that are rounded to the float, and it finds something: a power of ten of at most a quarter of a last
  place has a multiple there, and the search goes down to such a power before its rounds end.
Main exports: Decimal.value, Interval.Contains, Interval.search_contains, rounds_of_contains,
  rounds_shortest
-/
import Emblem.Number.Shortest
import Emblem.Proofs.FloatArithmetic
import Mathlib.Tactic.FieldSimp

namespace Emblem.Number

open Float.Model (Format)

/-- The rational number that a decimal stands for. -/
def Decimal.value (d : Decimal) : ℚ :=
  d.significand * 10 ^ d.exponent

theorem ten_zpow_pos (k : ℤ) : (0 : ℚ) < 10 ^ k := by positivity

/-- A rounded quotient is one of the two naturals next to the exact one. -/
theorem roundDiv_eq_or (tie : Tie) (n d : Nat) :
    roundDiv tie n d = n / d ∨ roundDiv tie n d = n / d + 1 := by
  unfold roundDiv
  split
  · exact .inl rfl
  · split
    · exact .inr rfl
    · cases tie with
      | upward => exact .inr rfl
      | toEven =>
          rcases Nat.mod_two_eq_zero_or_one (n / d) with even | odd
          · exact .inl (by simp [even])
          · exact .inr (by simp [odd])

namespace Interval

variable {i : Interval} {tie : Tie}

/-- A real lies in the interval. -/
def Contains (i : Interval) (x : ℚ) : Prop :=
  if i.closed then i.low * 2 ^ i.scale ≤ x ∧ x ≤ i.high * 2 ^ i.scale
  else i.low * 2 ^ i.scale < x ∧ x < i.high * 2 ^ i.scale

/-- A power with any whole exponent, as a quotient of powers with natural ones. -/
theorem zpow_mul_toNat {b : ℚ} (nonzero : b ≠ 0) (k : ℤ) :
    b ^ k * b ^ (-k).toNat = b ^ k.toNat := by
  rw [← zpow_natCast, ← zpow_natCast, ← zpow_add₀ nonzero]
  congr 1
  omega

/-- The factors are a unit of the interval and a power of ten, in a common measure. -/
theorem exists_measure (i : Interval) (k : ℤ) :
    ∃ g : ℚ, 0 < g ∧ (i.ratio k).1 * g = 2 ^ i.scale ∧ (i.ratio k).2 * g = 10 ^ k := by
  have two := zpow_mul_toNat (b := 2) (by norm_num) i.scale
  have ten := zpow_mul_toNat (b := 10) (by norm_num) k
  refine ⟨10 ^ k / (i.ratio k).2, ?_, ?_, ?_⟩
  · simp only [ratio, Nat.pow_eq]
    positivity
  · simp only [ratio, Nat.pow_eq]
    push_cast
    rw [← two, ← ten]
    field_simp
  · simp only [ratio, Nat.pow_eq]
    push_cast
    field_simp

section Scaled

variable (i : Interval) (k : ℤ) (a c : Nat)

/-- Scaled naturals are compared as the numbers are. -/
theorem scaled_le_iff :
    a * (i.ratio k).1 ≤ c * (i.ratio k).2 ↔ (a : ℚ) * 2 ^ i.scale ≤ c * 10 ^ k := by
  obtain ⟨g, positive, num, den⟩ := i.exists_measure k
  rw [← num, ← den, ← mul_assoc, ← mul_assoc, mul_le_mul_iff_left₀ positive]
  norm_cast

theorem scaled_ge_iff :
    c * (i.ratio k).2 ≤ a * (i.ratio k).1 ↔ (c : ℚ) * 10 ^ k ≤ a * 2 ^ i.scale := by
  obtain ⟨g, positive, num, den⟩ := i.exists_measure k
  rw [← num, ← den, ← mul_assoc, ← mul_assoc, mul_le_mul_iff_left₀ positive]
  norm_cast

end Scaled

theorem holds_eq_true_iff {k : ℤ} {c : Nat} :
    i.holds k c = true ↔ i.Contains (c * 10 ^ k) := by
  unfold holds Contains
  simp only
  split
  · rw [decide_eq_true_iff, scaled_le_iff, scaled_ge_iff]
  · rw [decide_eq_true_iff, ← not_le, ← not_le, ← not_le, ← not_le, scaled_le_iff, scaled_ge_iff]

/-- What is found among the multiples of a power of ten lies in the interval. -/
theorem contains_of_nearestInside? {k : ℤ} {c : Nat} (found : i.nearestInside? tie k = some c) :
    i.Contains (c * 10 ^ k) := by
  rw [← holds_eq_true_iff]
  unfold nearestInside? at found
  simp only at found
  split at found
  case h_1 below above =>
      cases found
      rcases roundDiv_eq_or tie (i.value * (i.ratio k).1) (i.ratio k).2 with down | up
      · rw [down]
        exact below
      · rw [up]
        exact above
  case h_2 below _ =>
      cases found
      exact below
  case h_3 _ above =>
      cases found
      exact above
  case h_4 => cases found

/-- A search that can find something within its rounds ends in the interval. -/
theorem search_contains {rounds : Nat} {k : ℤ} {j : Nat} (early : j < rounds)
    (there : i.nearestInside? tie (k - j) ≠ none) : i.Contains (i.search tie rounds k).value := by
  induction rounds generalizing k j with
  | zero => omega
  | succ rounds ih =>
      unfold search
      cases found : i.nearestInside? tie k with
      | some c => exact contains_of_nearestInside? found
      | none =>
          cases j with
          | zero =>
              rw [Int.natCast_zero, sub_zero] at there
              exact absurd found there
          | succ j =>
              have next : k - 1 - (j : ℤ) = k - (j + 1 : ℕ) := by
                push_cast
                ring
              rw [← next] at there
              exact ih (by omega) there

end Interval

/-! ### The interval around a float -/

section Around

variable {m : Nat} {e : ℤ} {tie : Tie}

theorem low_around (m_pos : 0 < m) : ∃ below : ℚ,
    ((Interval.around Format.binary64 m e).low : ℚ) = 4 * m - below ∧
      ((below = 1 ∧ m = 2 ^ 52 ∧ -1074 < e) ∨ (below = 2 ∧ (m ≠ 2 ^ 52 ∨ e ≤ -1074))) := by
  have least : Format.binary64.minExponent = -1074 := rfl
  have digits : Nat.pow 2 Format.binary64.mantissaBitsWithoutImplicit = 2 ^ 52 := rfl
  simp only [Interval.around, least, digits]
  split
  case isTrue quarter =>
      refine ⟨1, ?_, .inl ⟨rfl, quarter⟩⟩
      rw [Nat.cast_sub (by omega)]
      push_cast
      ring
  case isFalse other =>
      refine ⟨2, ?_, .inr ⟨rfl, ?_⟩⟩
      · rw [Nat.cast_sub (by omega)]
        push_cast
        ring
      · by_contra both
        push Not at both
        exact other both

/-- Below the value, within a unit of the interval, all reals belong to it. -/
theorem contains_of_near (m_pos : 0 < m) {x : ℚ} (near : (4 * m - 1) * 2 ^ (e - 2) < x)
    (below : x ≤ 4 * m * 2 ^ (e - 2)) : (Interval.around Format.binary64 m e).Contains x := by
  obtain ⟨step, low, shape⟩ := low_around (e := e) m_pos
  have unit := two_zpow_pos (e - 2)
  have bottom : ((Interval.around Format.binary64 m e).low : ℚ) * 2 ^ (e - 2) < x := by
    rw [low]
    refine lt_of_le_of_lt (mul_le_mul_of_nonneg_right ?_ unit.le) near
    rcases shape with ⟨rfl, _⟩ | ⟨rfl, _⟩ <;> linarith
  have top : x < ((Interval.around Format.binary64 m e).high : ℚ) * 2 ^ (e - 2) := by
    refine lt_of_le_of_lt below (mul_lt_mul_of_pos_right ?_ unit)
    simp only [Interval.around]
    push_cast
    linarith
  unfold Interval.Contains
  split
  · exact ⟨bottom.le, top.le⟩
  · exact ⟨bottom, top⟩

/-- Powers of ten of at most a unit of the interval have a multiple in it. -/
theorem nearestInside?_ne_none (m_pos : 0 < m) {k : ℤ} (fine : (10 : ℚ) ^ k ≤ 2 ^ (e - 2)) :
    (Interval.around Format.binary64 m e).nearestInside? tie k ≠ none := by
  have scale : (Interval.around Format.binary64 m e).scale = e - 2 := rfl
  have value : (Interval.around Format.binary64 m e).value = 4 * m := rfl
  have near : ∀ {x : ℚ}, (4 * m - 1) * 2 ^ (e - 2) < x → x ≤ 4 * m * 2 ^ (e - 2) →
      (Interval.around Format.binary64 m e).Contains x := contains_of_near m_pos
  generalize Interval.around Format.binary64 m e = i at *
  have den : 0 < (i.ratio k).2 := Nat.mul_pos (Nat.two_pow_pos _) (Nat.pow_pos (by decide))
  have inside : i.holds k (i.value * (i.ratio k).1 / (i.ratio k).2) = true := by
    generalize quotient : i.value * (i.ratio k).1 / (i.ratio k).2 = q
    have below : q * (i.ratio k).2 ≤ i.value * (i.ratio k).1 := by
      rw [← quotient]
      exact Nat.div_mul_le_self _ _
    have above : ¬(q + 1) * (i.ratio k).2 ≤ i.value * (i.ratio k).1 := by
      rw [not_le, ← quotient]
      exact (Nat.div_lt_iff_lt_mul den).1 (Nat.lt_succ_self _)
    rw [i.scaled_ge_iff, scale, value] at below above
    push_cast at below above
    rw [Interval.holds_eq_true_iff]
    apply near
    · linarith
    · exact below
  unfold Interval.nearestInside?
  simp only [inside]
  split <;> simp_all

/-- Three binary digits do not make a decimal one, but ten make three. -/
theorem ten_zpow_le_of_nonneg {j s : ℤ} (nonneg : 0 ≤ s) (slope : 10 * j ≤ 3 * s) :
    (10 : ℚ) ^ j ≤ 2 ^ s := by
  rcases le_total j 0 with low | high
  · calc
      (10 : ℚ) ^ j ≤ 1 := zpow_le_one_of_nonpos₀ (by norm_num) low
      _ ≤ 2 ^ s := one_le_zpow₀ (by norm_num) nonneg
  · have cubes : ((10 : ℚ) ^ j) ^ 3 ≤ (2 ^ s) ^ 3 := calc
      ((10 : ℚ) ^ j) ^ 3 = (10 ^ 3) ^ j := by
        rw [← zpow_natCast, ← zpow_mul, mul_comm, zpow_mul, zpow_natCast]
      _ ≤ (2 ^ 10) ^ j := zpow_le_zpow_left₀ high (by norm_num) (by norm_num)
      _ = 2 ^ (10 * j) := by rw [zpow_mul, zpow_ofNat]
      _ ≤ 2 ^ (s * 3) := two_zpow_le (by omega)
      _ = (2 ^ s) ^ 3 := by rw [zpow_mul, zpow_ofNat]
    exact le_of_pow_le_pow_left₀ (by norm_num) (two_zpow_pos s).le cubes

/-- Ten decimal digits make 33 binary ones. -/
theorem ten_zpow_le_of_nonpos {j s : ℤ} (nonpos : s ≤ 0) (slope : 33 * j ≤ 10 * s) :
    (10 : ℚ) ^ j ≤ 2 ^ s := by
  have powers : ((10 : ℚ) ^ j) ^ 33 ≤ (2 ^ s) ^ 33 := calc
    ((10 : ℚ) ^ j) ^ 33 = 10 ^ (j * 33) := by rw [zpow_mul, zpow_ofNat]
    _ ≤ 10 ^ (10 * s) := zpow_le_zpow_right₀ (by norm_num) (by omega)
    _ = (10 ^ 10) ^ s := by rw [zpow_mul, zpow_ofNat]
    _ = ((10 ^ 10)⁻¹) ^ (-s) := by rw [inv_zpow', neg_neg]
    _ ≤ ((2 ^ 33)⁻¹) ^ (-s) := zpow_le_zpow_left₀ (by omega) (by norm_num) (by norm_num)
    _ = (2 ^ 33) ^ s := by rw [inv_zpow', neg_neg]
    _ = (2 ^ s) ^ 33 := by rw [← zpow_ofNat, ← zpow_ofNat, ← zpow_mul, ← zpow_mul, mul_comm]
  exact le_of_pow_le_pow_left₀ (by norm_num) (two_zpow_pos s).le powers

/-- The search comes to a power of ten of at most a unit of the interval. -/
theorem ten_zpow_le {j s k : ℤ} (top : k ≤ (56 + s) * 30103 / 100000 + 2) (down : j = k - 39)
    (least : -2000 ≤ s) (greatest : s ≤ 2000) : (10 : ℚ) ^ j ≤ 2 ^ s := by
  rcases le_total 0 s with nonneg | nonpos
  · exact ten_zpow_le_of_nonneg nonneg (by omega)
  · exact ten_zpow_le_of_nonpos nonpos (by omega)

/-- The shortest decimal of a float lies among the reals that are rounded to it. -/
theorem contains_shortest (m_pos : 0 < m) (fits : m < 2 ^ 53) (least : -1074 ≤ e) (greatest : e ≤ 971) :
    (Interval.around Format.binary64 m e).Contains (shortest Format.binary64 tie m e).value := by
  refine Interval.search_contains (j := 39) (by decide) (nearestInside?_ne_none m_pos ?_)
  refine ten_zpow_le (k := (Interval.around Format.binary64 m e).topPower) ?_ rfl (by omega) (by omega)
  have high : (4 * m + 2).log2 < 56 := by
    rw [Nat.log2_lt (by omega)]
    omega
  simp only [Interval.topPower, Interval.around]
  omega

end Around

/-! ### Rounding back -/

/-- A number of the interval lies within half a last place around the significand, within a quarter below
the least significand of a binade, and half a place away only if the significand is even. -/
theorem units_of_contains {m : Nat} {e : ℤ} (m_pos : 0 < m) {x : ℚ}
    (inside : (Interval.around Format.binary64 m e).Contains x) : ∃ step : ℚ,
      ((step = 1 ∧ m = 2 ^ 52 ∧ -1074 < e) ∨ (step = 2 ∧ (m ≠ 2 ^ 52 ∨ e ≤ -1074))) ∧
      m - step / 4 ≤ x / 2 ^ e ∧ x / 2 ^ e ≤ m + 1 / 2 ∧
      (x / 2 ^ e = m - step / 4 ∨ x / 2 ^ e = m + 1 / 2 → Even (m : ℤ)) := by
  obtain ⟨step, low, shape⟩ := low_around (e := e) m_pos
  refine ⟨step, shape, ?_⟩
  have unit := two_zpow_pos e
  have quarter : (2 : ℚ) ^ (e - 2) = 2 ^ e / 4 := by
    rw [zpow_sub₀ (by norm_num)]
    norm_num
  have bottom : ((Interval.around Format.binary64 m e).low : ℚ) * 2 ^ (e - 2) =
      (m - step / 4) * 2 ^ e := by
    rw [low, quarter]
    ring
  have top : ((Interval.around Format.binary64 m e).high : ℚ) * 2 ^ (e - 2) = (m + 1 / 2) * 2 ^ e := by
    rw [quarter]
    simp only [Interval.around]
    push_cast
    ring
  have scale : (Interval.around Format.binary64 m e).scale = e - 2 := rfl
  have closed : (Interval.around Format.binary64 m e).closed = (m % 2 == 0) := rfl
  unfold Interval.Contains at inside
  rw [scale, closed, bottom, top] at inside
  split at inside
  case isTrue even =>
      rw [← le_div_iff₀ unit, ← div_le_iff₀ unit] at inside
      exact ⟨inside.1, inside.2, fun _ =>
        (Int.even_coe_nat m).2 (Nat.even_iff.2 (by simpa using even))⟩
  case isFalse =>
      rw [← lt_div_iff₀ unit, ← div_lt_iff₀ unit] at inside
      refine ⟨inside.1.le, inside.2.le, ?_⟩
      rintro (bound | bound)
      · exact absurd bound inside.1.ne'
      · exact absurd bound inside.2.ne

/-- The reals of the interval around a float are rounded to it. -/
theorem rounds_of_contains {m : Nat} {e : ℤ} (m_pos : 0 < m) (fits : m < 2 ^ 53) (least : -1074 ≤ e)
    (full : e = -1074 ∨ 2 ^ 52 ≤ m) {x : ℚ}
    (inside : (Interval.around Format.binary64 m e).Contains x) : Rounds x (m * 2 ^ e) := by
  obtain ⟨step, shape, low, high, even⟩ := units_of_contains m_pos inside
  have unit := two_zpow_pos e
  have some_digit : (1 : ℚ) ≤ m := by exact_mod_cast m_pos
  have few : (m : ℚ) + 1 ≤ 2 ^ 53 := by exact_mod_cast fits
  have number : x = x / 2 ^ e * 2 ^ e := (div_mul_cancel₀ x unit.ne').symm
  have width : step / 4 ≤ 1 / 2 := by
    rcases shape with ⟨rfl, _⟩ | ⟨rfl, _⟩ <;> norm_num
  have positive : 0 < x / 2 ^ e := by linarith
  have size : |x| = x / 2 ^ e * 2 ^ e := by
    rw [abs_of_pos]
    · exact number
    · rw [number]
      exact mul_pos positive unit
  by_cases place : e = -1074 ∨ (2 : ℚ) ^ 52 ≤ x / 2 ^ e
  · refine ⟨e, m, ⟨least, ?_, place.imp_right ?_⟩, ⟨?_, ?_⟩, by rw [Int.cast_natCast]⟩
    · rw [size, add_comm, two_zpow_add]
      refine mul_lt_mul_of_pos_right ?_ unit
      rw [zpow_ofNat]
      linarith
    · intro many
      rw [size, add_comm, two_zpow_add]
      exact mul_le_mul_of_nonneg_right many unit.le
    · rw [abs_le, Int.cast_natCast]
      constructor <;> linarith
    · intro tie
      apply even
      rw [Int.cast_natCast] at tie
      rcases (abs_eq (by norm_num)).1 tie with up | down
      · exact .inr (by linarith)
      · exact .inl (by linarith)
  -- Below a binade the last place is half as large, and only its least significand reaches there.
  · push Not at place
    obtain ⟨inner, less⟩ := place
    rcases shape with ⟨rfl, rfl, _⟩ | ⟨rfl, other⟩
    · have half : x / 2 ^ (e - 1) = 2 * (x / 2 ^ e) := by
        rw [zpow_sub_one₀ (by norm_num)]
        field_simp
      have double : (2 : ℚ) ^ e = 2 * 2 ^ (e - 1) := by
        rw [zpow_sub_one₀ (by norm_num)]
        ring
      push_cast at low
      refine ⟨e - 1, 2 ^ 53, ⟨by omega, ?_, .inr ?_⟩, ⟨?_, fun _ => ⟨2 ^ 52, by norm_num⟩⟩, ?_⟩
      · have shift : e - 1 + 53 = 52 + e := by ring
        rw [size, shift, two_zpow_add]
        exact mul_lt_mul_of_pos_right (by rw [zpow_ofNat]; exact less) unit
      · have shift : e - 1 + 52 = 51 + e := by ring
        rw [size, shift, two_zpow_add]
        refine mul_le_mul_of_nonneg_right ?_ unit.le
        rw [zpow_ofNat]
        linarith
      · rw [half, abs_le]
        push_cast
        constructor <;> linarith
      · rw [double]
        push_cast
        ring
    · have many := full.resolve_left inner
      have more : 2 ^ 52 + 1 ≤ m := by omega
      have moreCast : (2 : ℚ) ^ 52 + 1 ≤ m := by exact_mod_cast more
      linarith

/-- The shortest decimal of a float is rounded to it. -/
theorem rounds_shortest {m : Nat} {e : ℤ} (m_pos : 0 < m) (fits : m < 2 ^ 53) (least : -1074 ≤ e)
    (greatest : e ≤ 971) (full : e = -1074 ∨ 2 ^ 52 ≤ m) (tie : Tie) :
    Rounds (shortest Format.binary64 tie m e).value (m * 2 ^ e) :=
  rounds_of_contains m_pos fits least full (contains_shortest m_pos fits least greatest)

/-! ### How coarse the search ends -/

/-- The search ends at the power it starts from or just below one where nothing is found. -/
theorem Interval.search_exponent {i : Interval} {tie : Tie} {p : ℤ → Prop} {rounds : Nat} {k : ℤ}
    (start : p (k + 1)) (missed : ∀ j, i.nearestInside? tie j = none → p j) :
    p ((i.search tie rounds k).exponent + 1) := by
  induction rounds generalizing k with
  | zero => exact start
  | succ rounds ih =>
      unfold search
      cases found : i.nearestInside? tie k with
      | some c => exact start
      | none =>
          refine ih ?_
          rw [sub_add_cancel]
          exact missed k found

/-- A power of two is below the power of ten with a little more than its decimal digits. -/
theorem two_zpow_lt_ten {s j : ℤ} (least : -2000 ≤ s) (greatest : s ≤ 2000)
    (above : 30103 * s + 100000 ≤ 100000 * j) : (2 : ℚ) ^ s < 10 ^ j := by
  rcases le_total 0 s with nonneg | nonpos
  · have powers : ((2 : ℚ) ^ s) ^ 93 < (10 ^ j) ^ 93 := calc
      ((2 : ℚ) ^ s) ^ 93 = (2 ^ 93) ^ s := by
        rw [← zpow_ofNat, ← zpow_ofNat, ← zpow_mul, ← zpow_mul, mul_comm]
      _ ≤ (10 ^ 28) ^ s := zpow_le_zpow_left₀ nonneg (by norm_num) (by norm_num)
      _ = 10 ^ (28 * s) := by rw [zpow_mul, zpow_ofNat]
      _ < 10 ^ (j * 93) := zpow_lt_zpow_right₀ (by norm_num) (by omega)
      _ = (10 ^ j) ^ 93 := by rw [zpow_mul, zpow_ofNat]
    exact lt_of_pow_lt_pow_left₀ 93 (ten_zpow_pos j).le powers
  · have powers : ((2 : ℚ) ^ s) ^ 196 < (10 ^ j) ^ 196 := calc
      ((2 : ℚ) ^ s) ^ 196 = (2 ^ 196) ^ s := by
        rw [← zpow_ofNat, ← zpow_ofNat, ← zpow_mul, ← zpow_mul, mul_comm]
      _ = ((2 ^ 196)⁻¹) ^ (-s) := by rw [inv_zpow', neg_neg]
      _ ≤ ((10 ^ 59)⁻¹) ^ (-s) := zpow_le_zpow_left₀ (by omega) (by norm_num) (by norm_num)
      _ = 10 ^ (59 * s) := by rw [inv_zpow', neg_neg, zpow_mul, zpow_ofNat]
      _ < 10 ^ (j * 196) := zpow_lt_zpow_right₀ (by norm_num) (by omega)
      _ = (10 ^ j) ^ 196 := by rw [zpow_mul, zpow_ofNat]
    exact lt_of_pow_lt_pow_left₀ 196 (ten_zpow_pos j).le powers

section Coarseness

variable {m : Nat} {e : ℤ} (tie : Tie)

/-- The power of ten above that of the shortest decimal is more than a quarter of a last place. -/
theorem lt_ten_zpow_shortest (m_pos : 0 < m) (least : -1074 ≤ e) (greatest : e ≤ 971) :
    (2 : ℚ) ^ (e - 2) < 10 ^ ((shortest Format.binary64 tie m e).exponent + 1) := by
  refine Interval.search_exponent (p := fun j => (2 : ℚ) ^ (e - 2) < 10 ^ j) ?_ fun j nothing => ?_
  · refine two_zpow_lt_ten (by omega) (by omega) ?_
    simp only [Interval.topPower, Interval.around]
    omega
  · by_contra fine
    exact nearestInside?_ne_none m_pos (not_lt.1 fine) nothing

/-- The shortest decimal is at most half a last place away. -/
theorem shortest_units (m_pos : 0 < m) (fits : m < 2 ^ 53) (least : -1074 ≤ e) (greatest : e ≤ 971) :
    ((m : ℚ) - 1 / 2) * 2 ^ e ≤ (shortest Format.binary64 tie m e).value ∧
      (shortest Format.binary64 tie m e).value ≤ (m + 1 / 2) * 2 ^ e := by
  obtain ⟨step, shape, low, high, _⟩ := units_of_contains m_pos
    (@contains_shortest m e tie m_pos fits least greatest)
  have unit := two_zpow_pos e
  have width : step / 4 ≤ 1 / 2 := by
    rcases shape with ⟨rfl, _⟩ | ⟨rfl, _⟩ <;> norm_num
  rw [le_div_iff₀ unit] at low
  rw [div_le_iff₀ unit] at high
  exact ⟨(mul_le_mul_of_nonneg_right (by linarith) unit.le).trans low, high⟩

theorem shortest_significand_pos (m_pos : 0 < m) (fits : m < 2 ^ 53) (least : -1074 ≤ e)
    (greatest : e ≤ 971) : 0 < (shortest Format.binary64 tie m e).significand := by
  have low := (shortest_units tie m_pos fits least greatest).1
  have some_digit : (1 : ℚ) ≤ m := by exact_mod_cast m_pos
  have positive : (0 : ℚ) < (m - 1 / 2) * 2 ^ e := mul_pos (by linarith) (two_zpow_pos e)
  by_contra none
  have value : (shortest Format.binary64 tie m e).value = 0 := by
    rw [Decimal.value, Nat.eq_zero_of_not_pos none, Nat.cast_zero, zero_mul]
  linarith

/-- Its significand has at most 59 binary digits. -/
theorem shortest_significand_lt (m_pos : 0 < m) (fits : m < 2 ^ 53) (least : -1074 ≤ e)
    (greatest : e ≤ 971) : (shortest Format.binary64 tie m e).significand < 2 ^ 59 := by
  have coarse := lt_ten_zpow_shortest tie m_pos least greatest
  have high := (shortest_units tie m_pos fits least greatest).2
  have few : (m : ℚ) + 1 ≤ 2 ^ 53 := by exact_mod_cast fits
  have quarter : (2 : ℚ) ^ e = 4 * 2 ^ (e - 2) := by
    rw [zpow_sub₀ (by norm_num)]
    norm_num
    ring
  generalize shortest Format.binary64 tie m e = d at *
  have unit := ten_zpow_pos d.exponent
  rw [zpow_add_one₀ (by norm_num)] at coarse
  have bound : (d.significand : ℚ) * 10 ^ d.exponent < 2 ^ 59 * 10 ^ d.exponent := calc
    (d.significand : ℚ) * 10 ^ d.exponent ≤ (m + 1 / 2) * 2 ^ e := high
    _ ≤ 2 ^ 53 * 2 ^ e := mul_le_mul_of_nonneg_right (by linarith) (two_zpow_pos e).le
    _ = 2 ^ 55 * 2 ^ (e - 2) := by rw [quarter]; ring
    _ < 2 ^ 55 * (10 ^ d.exponent * 10) := mul_lt_mul_of_pos_left coarse (by norm_num)
    _ ≤ 2 ^ 59 * 10 ^ d.exponent := by nlinarith
  exact_mod_cast lt_of_mul_lt_mul_right bound unit.le

theorem two_zpow_lt_ten_zpow : (2 : ℚ) ^ (1024 : ℤ) < 10 ^ (309 : ℤ) := by
  have naturals : 2 ^ 1024 < 10 ^ 309 := by decide +kernel
  have cast : ((2 ^ 1024 : ℕ) : ℚ) < ((10 ^ 309 : ℕ) : ℚ) := Nat.cast_lt.2 naturals
  rwa [Nat.cast_pow, Nat.cast_pow] at cast

/-- Its power of ten is one that 64-bit floats reach to. -/
theorem shortest_exponent_bounds (m_pos : 0 < m) (fits : m < 2 ^ 53) (least : -1074 ≤ e)
    (greatest : e ≤ 971) : -327 ≤ (shortest Format.binary64 tie m e).exponent ∧
      (shortest Format.binary64 tie m e).exponent ≤ 308 := by
  have coarse := lt_ten_zpow_shortest tie m_pos least greatest
  have positive := shortest_significand_pos tie m_pos fits least greatest
  have high := (shortest_units tie m_pos fits least greatest).2
  have few : (m : ℚ) + 1 ≤ 2 ^ 53 := by exact_mod_cast fits
  generalize shortest Format.binary64 tie m e = d at *
  constructor
  · by_contra low
    refine absurd coarse (not_lt.2 ?_)
    rcases le_total 0 (e - 2) with nonneg | nonpos
    · exact ten_zpow_le_of_nonneg nonneg (by omega)
    · exact ten_zpow_le_of_nonpos nonpos (by omega)
  · by_contra above
    have some_digit : (1 : ℚ) ≤ d.significand := by exact_mod_cast positive
    have reached : (2 : ℚ) ^ (1024 : ℤ) < 2 ^ (1024 : ℤ) := calc
      (2 : ℚ) ^ (1024 : ℤ) < 10 ^ (309 : ℤ) := two_zpow_lt_ten_zpow
      _ ≤ 10 ^ d.exponent := zpow_le_zpow_right₀ (by norm_num) (by omega)
      _ ≤ d.value := le_mul_of_one_le_left (ten_zpow_pos _).le some_digit
      _ ≤ (m + 1 / 2) * 2 ^ e := high
      _ ≤ 2 ^ (53 : ℤ) * 2 ^ e := mul_le_mul_of_nonneg_right (by rw [zpow_ofNat]; linarith) (two_zpow_pos e).le
      _ ≤ 2 ^ (53 : ℤ) * 2 ^ (971 : ℤ) :=
        mul_le_mul_of_nonneg_left (two_zpow_le greatest) (two_zpow_pos 53).le
      _ = 2 ^ (1024 : ℤ) := (two_zpow_add 53 971).symm
    exact lt_irrefl _ reached

end Coarseness

end Emblem.Number
