/-
Module: Emblem.Proofs.FloatRounding
Purpose: How significands are rounded: shifted to their last place, to the nearest, and shifted once
  more if this carries. What comes of it is the exact number rounded.
Main exports: Stands, place, Binary.Canonical, Binary.Rounded, rounded_of_stands,
  rounded_roundWithAccuracy, rounded_round, rounded_normalize, Binary.Canonical.rounded
-/
import Emblem.Proofs.ExactValue
import Emblem.Proofs.NearestEven

namespace Emblem.Number

open Float.Model (Format totalExponent)
open Float.Model.UnpackedFloat (Accuracy ExtendedMantissa Sign accuracyOfFraction
  shiftToTargetExponent roundWithAccuracy)

/-! ### Rounding of significands -/

theorem natCast_div_eq (n : Nat) {d : Nat} (d_pos : 0 < d) :
    (n : ℚ) / d = (n / d : ℕ) + ((n % d : ℕ) : ℚ) / d := by
  have divisor : (d : ℚ) ≠ 0 := by exact_mod_cast d_pos.ne'
  have split : (n : ℚ) = d * (n / d : ℕ) + (n % d : ℕ) := by exact_mod_cast (Nat.div_add_mod n d).symm
  rw [div_eq_iff divisor, add_mul, div_mul_cancel₀ _ divisor, mul_comm _ (d : ℚ)]
  exact split

/-- The number that a mantissa stands for, as far as its residual bits tell. -/
def Stands (em : ExtendedMantissa) (x : ℚ) : Prop :=
  match em.roundBit, em.stickyBit with
  | false, false => x = em.mantissa
  | false, true => em.mantissa < x ∧ x < em.mantissa + 1 / 2
  | true, false => x = em.mantissa + 1 / 2
  | true, true => em.mantissa + 1 / 2 < x ∧ x < em.mantissa + 1

namespace Stands

variable {em : ExtendedMantissa} {x : ℚ}

theorem exact (m : Nat) : Stands (.ofMantissaAndAccuracy m .exact) m := rfl

theorem nearestEven (stands : Stands em x) : NearestEven x em.roundedMantissa := by
  obtain ⟨m, roundBit, stickyBit⟩ := em
  cases roundBit with
  | false =>
      cases stickyBit with
      | false =>
          have value : x = ((m : ℤ) : ℚ) := stands
          rw [value]
          exact .intCast m
      | true =>
          obtain ⟨above, below⟩ : (m : ℚ) < x ∧ x < m + 1 / 2 := stands
          have near : |x - ((m : ℤ) : ℚ)| < 1 / 2 := by
            rw [Int.cast_natCast, abs_lt]
            constructor <;> linarith
          exact ⟨near.le, fun tie => absurd tie near.ne⟩
  | true =>
      cases stickyBit with
      | false =>
          have value : x = m + 1 / 2 := stands
          rcases Nat.mod_two_eq_zero_or_one m with even | odd
          · have kept : ExtendedMantissa.roundedMantissa ⟨m, true, false⟩ = m := by
              simp [ExtendedMantissa.roundedMantissa, ExtendedMantissa.accuracy,
                Accuracy.roundToNearestEven, even]
            rw [kept]
            have half : x - ((m : ℤ) : ℚ) = 1 / 2 := by
              rw [value, Int.cast_natCast]
              ring
            refine ⟨by rw [half]; norm_num, fun _ => ?_⟩
            exact (Int.even_coe_nat m).2 (Nat.even_iff.2 even)
          · have up : ExtendedMantissa.roundedMantissa ⟨m, true, false⟩ = m + 1 := by
              simp [ExtendedMantissa.roundedMantissa, ExtendedMantissa.accuracy,
                Accuracy.roundToNearestEven, odd]
            rw [up]
            have half : x - (((m + 1 : ℕ) : ℤ) : ℚ) = -(1 / 2) := by
              rw [value]
              push_cast
              ring
            refine ⟨by rw [half]; norm_num, fun _ => ?_⟩
            exact (Int.even_coe_nat _).2 (Nat.even_iff.2 (by omega))
      | true =>
          obtain ⟨above, below⟩ : (m : ℚ) + 1 / 2 < x ∧ x < m + 1 := stands
          have up : ExtendedMantissa.roundedMantissa ⟨m, true, true⟩ = m + 1 := rfl
          have near : |x - (((m + 1 : ℕ) : ℤ) : ℚ)| < 1 / 2 := by
            rw [abs_lt]
            push_cast
            constructor <;> linarith
          rw [up]
          exact ⟨near.le, fun tie => absurd tie near.ne⟩

/-- What a remainder tells of the places behind a whole quotient. -/
theorem fraction (n : Nat) {d : Nat} (d_pos : 0 < d) :
    Stands (.ofMantissaAndAccuracy (n / d) (accuracyOfFraction (n % d) d)) ((n : ℚ) / d) := by
  have divisor : (0 : ℚ) < d := by exact_mod_cast d_pos
  have less : ((n % d : ℕ) : ℚ) < d := by exact_mod_cast Nat.mod_lt n d_pos
  rw [natCast_div_eq n d_pos]
  unfold accuracyOfFraction
  split
  case isTrue none =>
      rw [none, Nat.cast_zero, zero_div, add_zero]
      exact .exact _
  case isFalse some_part =>
      have above : (0 : ℚ) < ((n % d : ℕ) : ℚ) / d :=
        div_pos (by exact_mod_cast Nat.pos_of_ne_zero some_part) divisor
      have below : ((n % d : ℕ) : ℚ) / d < 1 := (div_lt_one divisor).2 less
      rcases lt_trichotomy (2 * (n % d)) d with low | half | high
      · have lowCast : 2 * ((n % d : ℕ) : ℚ) < d := by exact_mod_cast low
        have bound : ((n % d : ℕ) : ℚ) / d < 1 / 2 := by
          rw [div_lt_iff₀ divisor]
          linarith
        rw [Nat.compare_eq_lt.2 low]
        exact ⟨lt_add_of_pos_right _ above, add_lt_add_right bound _⟩
      · have halfCast : 2 * ((n % d : ℕ) : ℚ) = d := by exact_mod_cast half
        have bound : ((n % d : ℕ) : ℚ) / d = 1 / 2 := by
          rw [div_eq_iff divisor.ne']
          linarith
        rw [Nat.compare_eq_eq.2 half, bound]
        rfl
      · have highCast : d < 2 * ((n % d : ℕ) : ℚ) := by exact_mod_cast high
        have bound : 1 / 2 < ((n % d : ℕ) : ℚ) / d := by
          rw [lt_div_iff₀ divisor]
          linarith
        rw [Nat.compare_eq_gt.2 high]
        exact ⟨add_lt_add_right bound _, add_lt_add_right below _⟩

/-- A shift by one place halves the number; the bit that is dropped becomes the round bit. -/
theorem shiftRightOne (stands : Stands em x) : Stands em.shiftRightOne (x / 2) := by
  obtain ⟨m, roundBit, stickyBit⟩ := em
  have split : ((m % 2 : ℕ) : ℚ) + 2 * ((m / 2 : ℕ) : ℚ) = m := by
    exact_mod_cast Nat.mod_add_div m 2
  rcases Nat.mod_two_eq_zero_or_one m with even | odd
  · rw [even, Nat.cast_zero] at split
    cases roundBit <;> cases stickyBit <;>
      simp only [Stands, ExtendedMantissa.shiftRightOne, even, bne_self_eq_false, Bool.or_false,
        Bool.or_true] at stands ⊢
    · linarith
    · constructor <;> linarith
    · constructor <;> linarith
    · constructor <;> linarith
  · have bit : (1 != 0) = true := rfl
    rw [odd, Nat.cast_one] at split
    cases roundBit <;> cases stickyBit <;>
      simp only [Stands, ExtendedMantissa.shiftRightOne, odd, bit, Bool.or_false,
        Bool.or_true] at stands ⊢
    · linarith
    · constructor <;> linarith
    · constructor <;> linarith
    · constructor <;> linarith

theorem shiftRight (stands : Stands em x) (n : Nat) : Stands (em >>> n) (x / 2 ^ n) := by
  induction n with
  | zero =>
      rw [pow_zero, div_one]
      exact stands
  | succ n ih =>
      rw [pow_succ, ← div_div]
      exact ih.shiftRightOne

end Stands

/-! ### Last places -/

/-- The exponent of the last place of `m * 2 ^ e`. -/
def place (m : Nat) (e : Int) : Int :=
  Format.binary64.targetExponent (totalExponent m e)

theorem place_eq (m : Nat) (e : Int) : place m e = max (m.log2 + e - 52) (-1074) := by
  have bits : Format.binary64.mantissaBits = 53 := rfl
  have least : Format.binary64.minExponent = -1074 := rfl
  rw [place, Format.targetExponent, totalExponent, bits, least]
  push_cast
  omega

/-- A number has the last place of its whole part, or the least one if that is zero. -/
theorem lastPlace_of_floor {m : Nat} {e : Int} {u : ℚ} (low : m ≤ u) (high : u < m + 1)
    (lowest : m = 0 → e ≤ -1074) : LastPlace (u * 2 ^ e) (place m e) := by
  have digits : u < 2 ^ (m.log2 + 1) := by
    have next : (m : ℚ) + 1 ≤ 2 ^ (m.log2 + 1) := by
      exact_mod_cast (Nat.lt_log2_self : m < 2 ^ (m.log2 + 1))
    linarith
  have nonneg : 0 ≤ u := (Nat.cast_nonneg m).trans low
  have size : |u * 2 ^ e| = u * 2 ^ e := abs_of_nonneg (by positivity)
  rw [place_eq]
  refine ⟨le_max_right _ _, ?_, ?_⟩
  · rw [size]
    calc
      u * 2 ^ e < 2 ^ (m.log2 + 1) * 2 ^ e := mul_lt_mul_of_pos_right digits (two_zpow_pos e)
      _ = 2 ^ (((m.log2 + 1 : ℕ) : ℤ) + e) := by rw [two_zpow_add, zpow_natCast]
      _ ≤ 2 ^ (max (m.log2 + e - 52) (-1074) + 53) := two_zpow_le (by push_cast; omega)
  · rcases Nat.eq_zero_or_pos m with rfl | m_pos
    · have below := lowest rfl
      rw [Nat.log2_zero]
      exact .inl (max_eq_right (by omega))
    · have full : (2 : ℚ) ^ m.log2 ≤ m := by exact_mod_cast Nat.log2_self_le m_pos.ne'
      rcases le_total ((m.log2 : ℤ) + e - 52) (-1074) with below | above
      · exact .inl (max_eq_right below)
      · right
        rw [size, max_eq_left above]
        calc
          (2 : ℚ) ^ ((m.log2 : ℤ) + e - 52 + 52) = 2 ^ ((m.log2 : ℤ) + e) := by congr 1; ring
          _ = 2 ^ m.log2 * 2 ^ e := by rw [two_zpow_add, zpow_natCast]
          _ ≤ u * 2 ^ e := mul_le_mul_of_nonneg_right (full.trans low) (two_zpow_pos e).le

theorem lastPlace_place {m : Nat} (m_pos : 0 < m) (e : Int) :
    LastPlace ((m : ℚ) * 2 ^ e) (place m e) :=
  lastPlace_of_floor le_rfl (lt_add_one _) fun none => absurd none m_pos.ne'

/-! ### Rounding of values -/

namespace Binary

/-- A finite value is written with the significand that it has as a float: one of 53 binary digits,
or of fewer in the least place. -/
def Canonical : Binary → Prop
  | .finite _ m e _ => m < 2 ^ 53 ∧ -1074 ≤ e ∧ (e = -1074 ∨ 2 ^ 52 ≤ m)
  | _ => True

/-- A finite value is a number as it is rounded, were there no greatest float. -/
structure Rounded (b : Binary) (x : ℚ) : Prop where
  canonical : b.Canonical
  finite : b.isFinite
  rounds : Rounds x b.value

end Binary

section Shifts

variable {m : Nat} {e t : Int}

/-- The first shift brings a number to its last place. -/
theorem exists_shift {accuracy : Accuracy} {u : ℚ}
    (stands : Stands (.ofMantissaAndAccuracy m accuracy) u) (le : e ≤ place m e) :
    ∃ em, shiftToTargetExponent Format.binary64 m e accuracy = (em, place m e) ∧
      Stands em (u * 2 ^ e / 2 ^ place m e) := by
  refine ⟨ExtendedMantissa.ofMantissaAndAccuracy m accuracy >>> (place m e - e).toNat, ?_, ?_⟩
  · have reached : e + ((place m e - e).toNat : Int) = place m e := by omega
    calc
      shiftToTargetExponent Format.binary64 m e accuracy =
          (ExtendedMantissa.ofMantissaAndAccuracy m accuracy >>> (place m e - e).toNat,
            e + ((place m e - e).toNat : Int)) := rfl
      _ = _ := by rw [reached]
  · have split : (2 : ℚ) ^ place m e = 2 ^ e * 2 ^ (place m e - e).toNat := by
      rw [← zpow_natCast, ← two_zpow_add]
      congr 1
      omega
    have units : u * 2 ^ e / 2 ^ place m e = u / 2 ^ (place m e - e).toNat := by
      rw [split, mul_comm, mul_div_mul_left _ _ (two_zpow_pos e).ne']
    rw [units]
    exact stands.shiftRight _

/-- A significand that has no more than 53 digits is not shifted again. -/
theorem shift_of_lt (fits : m < 2 ^ 53) (least : -1074 ≤ t) :
    shiftToTargetExponent Format.binary64 m t .exact = (⟨m, false, false⟩, t) := by
  have digits : m.log2 < 53 := by
    rcases Nat.eq_zero_or_pos m with rfl | m_pos
    · simp
    · exact (Nat.log2_lt m_pos.ne').2 fits
  have reached : place m t ≤ t := by
    rw [place_eq]
    omega
  have still : (place m t - t).toNat = 0 := by omega
  calc
    shiftToTargetExponent Format.binary64 m t .exact =
        (ExtendedMantissa.ofMantissaAndAccuracy m .exact >>> (place m t - t).toNat,
          t + ((place m t - t).toNat : Int)) := rfl
    _ = (⟨m, false, false⟩, t) := by
      rw [still, Int.natCast_zero, add_zero]
      rfl

/-- A significand that was rounded up to 54 digits loses its last one, which is zero. -/
theorem shift_of_carry (least : -1074 ≤ t) :
    shiftToTargetExponent Format.binary64 (2 ^ 53) t .exact = (⟨2 ^ 52, false, false⟩, t + 1) := by
  have reached : place (2 ^ 53) t = t + 1 := by
    rw [place_eq, Nat.log2_two_pow]
    omega
  have once : (place (2 ^ 53) t - t).toNat = 1 := by omega
  calc
    shiftToTargetExponent Format.binary64 (2 ^ 53) t .exact =
        (ExtendedMantissa.ofMantissaAndAccuracy (2 ^ 53) .exact >>> (place (2 ^ 53) t - t).toNat,
          t + ((place (2 ^ 53) t - t).toNat : Int)) := rfl
    _ = (⟨2 ^ 52, false, false⟩, t + 1) := by
      rw [once]
      rfl

end Shifts

theorem signed_neg (s : Sign) (m : Nat) : signed (-s) m = -signed s m := by
  cases s with
  | positive => rfl
  | negative => exact (neg_neg (m : Int)).symm

theorem signed_mul (s s' : Sign) (m n : Nat) :
    signed (s * s') (m * n) = signed s m * signed s' n := by
  have product := Int.natCast_mul m n
  cases s with
  | positive =>
      cases s' with
      | positive => exact product
      | negative => exact (congrArg Neg.neg product).trans (mul_neg _ _).symm
  | negative =>
      cases s' with
      | positive => exact (congrArg Neg.neg product).trans (neg_mul _ _).symm
      | negative => exact product.trans (neg_mul_neg _ _).symm

theorem signed_eq (s : Sign) (m : Nat) : (signed s m : ℚ) = signed s 1 * m := by
  cases s <;> simp [signed]

/-- A number keeps its sign when it is rounded. -/
theorem Rounds.signed {x : ℚ} {q : Nat} {t : Int} (rounds : Rounds x (q * 2 ^ t)) (s : Sign) :
    Rounds (Number.signed s 1 * x) ((Number.signed s q : Int) * 2 ^ t) := by
  cases s with
  | positive =>
      simp only [Number.signed, Int.cast_natCast, Nat.cast_one, Int.cast_one, one_mul]
      exact rounds
  | negative =>
      simp only [Number.signed, Int.cast_neg, Int.cast_natCast, Nat.cast_one, Int.cast_one, neg_mul, one_mul]
      exact rounds.neg

/-- A significand of at most 53 digits, or none, is rounded as it stands for its number. -/
theorem rounded_of_significand {x : ℚ} {q : Nat} {t : Int} (rounds : Rounds x (q * 2 ^ t))
    (fits : q < 2 ^ 53) (least : -1074 ≤ t) (full : t = -1074 ∨ 2 ^ 52 ≤ q) (s : Sign) :
    Binary.Rounded (if h : q = 0 then .zero s else .finite s q t (Nat.pos_of_ne_zero h))
      (signed s 1 * x) := by
  have signedRounds := rounds.signed s
  by_cases none : q = 0
  · subst none
    refine ⟨trivial, rfl, ?_⟩
    have zero : ((signed s 0 : Int) : ℚ) * 2 ^ t = 0 := by cases s <;> simp [signed]
    rw [zero] at signedRounds
    exact signedRounds
  · rw [dif_neg none]
    exact ⟨⟨fits, least, full⟩, rfl, signedRounds⟩

theorem roundWithAccuracy_eq {m : Nat} {e t t' : Int} {accuracy : Accuracy} {em em' : ExtendedMantissa}
    (first : shiftToTargetExponent Format.binary64 m e accuracy = (em, t))
    (second : shiftToTargetExponent Format.binary64 em.roundedMantissa t .exact = (em', t'))
    (s : Sign) :
    roundWithAccuracy Format.binary64 s m e accuracy =
      if h : em'.mantissa = 0 then .zero s
      else .finite s em'.mantissa t' (Nat.pos_of_ne_zero h) := by
  have twice : roundWithAccuracy Format.binary64 s m e accuracy =
      (fun shifted : ExtendedMantissa × Int =>
        if h : shifted.1.mantissa = 0 then .zero s
        else .finite s shifted.1.mantissa shifted.2 (Nat.pos_of_ne_zero h))
        (shiftToTargetExponent Format.binary64
          (shiftToTargetExponent Format.binary64 m e accuracy).1.roundedMantissa
          (shiftToTargetExponent Format.binary64 m e accuracy).2 .exact) := rfl
  rw [twice, first, second]

/-- A significand that has all the places of its float, with what is known of further places, is rounded
to 53 digits. -/
theorem rounded_of_stands {m : Nat} {e : Int} {accuracy : Accuracy} {u : ℚ} (nonneg : 0 ≤ u)
    (stands : Stands (.ofMantissaAndAccuracy m accuracy) u) (last : LastPlace (u * 2 ^ e) (place m e))
    (le : e ≤ place m e) (s : Sign) :
    Binary.Rounded (roundWithAccuracy Format.binary64 s m e accuracy) (signed s 1 * (u * 2 ^ e)) := by
  obtain ⟨em, shifted, stands⟩ := exists_shift stands le
  have nearest := stands.nearestEven
  have rounds : Rounds (u * 2 ^ e) (em.roundedMantissa * 2 ^ place m e) :=
    ⟨place m e, em.roundedMantissa, last, nearest, by rw [Int.cast_natCast]⟩
  have units_nonneg : 0 ≤ u * 2 ^ e / 2 ^ place m e := by positivity
  have few : em.roundedMantissa ≤ 2 ^ 53 := by
    have bound : (em.roundedMantissa : ℤ) ≤ 2 ^ 53 := by
      apply nearest.le_of_le
      push_cast
      exact ((le_abs_self _).trans_lt last.lt_units).le
    exact_mod_cast bound
  have full : place m e = -1074 ∨ 2 ^ 52 ≤ em.roundedMantissa := by
    by_cases lowest : place m e = -1074
    · exact .inl lowest
    · right
      have bound : (2 : ℤ) ^ 52 ≤ em.roundedMantissa := by
        apply nearest.ge_of_ge
        have many := last.units_ge lowest
        rw [abs_of_nonneg units_nonneg] at many
        push_cast
        exact many
      exact_mod_cast bound
  rcases few.lt_or_eq with fits | carry
  · rw [roundWithAccuracy_eq shifted (shift_of_lt fits last.least) s]
    exact rounded_of_significand rounds fits last.least full s
  -- A carry beyond 53 digits leaves a power of two, which the second shift moves up exactly.
  · have carried : shiftToTargetExponent Format.binary64 em.roundedMantissa (place m e) .exact =
        (⟨2 ^ 52, false, false⟩, place m e + 1) := by
      rw [carry]
      exact shift_of_carry last.least
    have same : (em.roundedMantissa : ℚ) * 2 ^ place m e =
        ((2 ^ 52 : ℕ) : ℚ) * 2 ^ (place m e + 1) := by
      rw [carry, two_zpow_add]
      push_cast
      ring
    rw [same] at rounds
    rw [roundWithAccuracy_eq shifted carried s]
    exact rounded_of_significand rounds (by norm_num) (by have := last.least; omega)
      (.inr le_rfl) s

/-- Without further places, the significand is all of the number. -/
theorem rounded_roundWithAccuracy {m : Nat} {e : Int} (m_pos : 0 < m) (le : e ≤ place m e)
    (s : Sign) :
    Binary.Rounded (roundWithAccuracy Format.binary64 s m e .exact) (signed s m * 2 ^ e) := by
  rw [signed_eq, mul_assoc]
  exact rounded_of_stands (Nat.cast_nonneg m) (.exact m) (lastPlace_place m_pos e) le s

/-- Zeros behind the last place do not change a number. -/
theorem shiftLeft_value (m : Nat) (e : Int) (k : Nat) :
    ((m <<< k : ℕ) : ℚ) * 2 ^ (e - k) = m * 2 ^ e := by
  have split : (2 : ℚ) ^ e = 2 ^ k * 2 ^ (e - k) := by
    rw [← zpow_natCast, ← two_zpow_add]
    congr 1
    ring
  rw [split, Nat.shiftLeft_eq]
  push_cast
  ring

theorem log2_shiftLeft {m : Nat} (m_pos : 0 < m) (k : Nat) : (m <<< k).log2 = m.log2 + k := by
  induction k with
  | zero => rfl
  | succ k ih =>
      have some_digit : m <<< k ≠ 0 := by
        rw [Nat.shiftLeft_eq]
        exact (Nat.mul_pos m_pos (Nat.two_pow_pos k)).ne'
      rw [Nat.shiftLeft_succ, Nat.log2_two_mul some_digit, ih, add_assoc]

theorem place_shiftLeft {m : Nat} (m_pos : 0 < m) (e : Int) (k : Nat) :
    place (m <<< k) (e - k) = place m e := by
  rw [place_eq, place_eq, log2_shiftLeft m_pos]
  push_cast
  congr 1
  ring

/-- Any number can be rounded; it is first written with all the places of its float. -/
theorem rounded_round {m : Nat} (m_pos : 0 < m) (e : Int) (s : Sign) :
    Binary.Rounded (.round Format.binary64 s m e) (signed s m * 2 ^ e) := by
  have written : (.round Format.binary64 s m e : Binary) =
      roundWithAccuracy Format.binary64 s (m <<< (e - place m e).toNat)
        (e - ((e - place m e).toNat : Int)) .exact := rfl
  generalize found : (e - place m e).toNat = k at written
  have more : 0 < m <<< k := by
    rw [Nat.shiftLeft_eq]
    exact Nat.mul_pos m_pos (Nat.two_pow_pos _)
  have low : e - k ≤ place (m <<< k) (e - k) := by
    rw [place_shiftLeft m_pos]
    omega
  have same : ((signed s (m <<< k) : Int) : ℚ) * 2 ^ (e - k) = signed s m * 2 ^ e := by
    have unsigned := shiftLeft_value m e k
    cases s <;> simp only [signed, Int.cast_neg, Int.cast_natCast, neg_mul, unsigned]
  rw [written, ← same]
  exact rounded_roundWithAccuracy more low s

theorem rounds_zero : Rounds 0 0 :=
  .of_fits (n := 0) (t := -1074) le_rfl (by norm_num) (by norm_num) (.inl rfl)

/-- Sums and differences are rounded, or are zero. -/
theorem rounded_normalize (m : Int) (e : Int) (s : Sign) :
    Binary.Rounded (.normalize Format.binary64 m e s) (m * 2 ^ e) := by
  rcases lt_trichotomy m 0 with below | rfl | above
  · have negative : ((signed .negative (-m).toNat : Int) : ℚ) = m := by
      have same : signed .negative (-m).toNat = m := by
        simp only [signed]
        omega
      rw [same]
    rw [Float.Model.UnpackedFloat.normalize, Int.compare_eq_lt.2 below, ← negative]
    exact rounded_round (by omega) e .negative
  · refine ⟨trivial, rfl, ?_⟩
    rw [Int.cast_zero, zero_mul]
    exact rounds_zero
  · have positive : ((signed .positive m.toNat : Int) : ℚ) = m := by
      have same : signed .positive m.toNat = m := by
        simp only [signed]
        omega
      rw [same]
    rw [Float.Model.UnpackedFloat.normalize, Int.compare_eq_gt.2 above, ← positive]
    exact rounded_round (by omega) e .positive

namespace Binary

variable {a b : Binary}

/-- Canonical values are as they would be rounded. -/
theorem Canonical.rounded (canonical : b.Canonical) (finite : b.isFinite) : b.Rounded b.value := by
  refine ⟨canonical, finite, ?_⟩
  cases b with
  | notANumber => cases finite
  | infinity s => cases finite
  | zero s => exact rounds_zero
  | finite s m e m_pos =>
      obtain ⟨fits, least, full⟩ := canonical
      have size : |signed s m| = m := by cases s <;> simp [signed]
      refine .of_fits (n := signed s m) least rfl ?_ ?_
      · rw [size]
        exact_mod_cast fits
      · rw [size]
        exact full.imp_right fun full => by exact_mod_cast full

end Binary

end Emblem.Number
