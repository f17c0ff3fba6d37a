/-
Module: Emblem.Proofs.ExactValue
Purpose: Floats as exact rational numbers, as far as their signs go: comparisons with zero, and
  sums, of which the sign survives rounding and packing.
Main exports: Number.value, Number.Binary.sign_unpack_pack, Number.value_nonneg_of_isStartTime,
  Number.value_pos, Number.sign_add, Number.value_add_nonneg
-/
import Emblem.Design
import Mathlib

namespace Emblem.Number

open Float.Model (Format)
open Float.Model.UnpackedFloat (Sign Accuracy roundWithAccuracy add pack packComponents packedInfinity
  packedZero unpack unpackSign unpackExponent unpackMantissa unpackSign_packComponents
  unpackExponent_packComponents unpackMantissa_packComponents)

namespace Binary

/-- The rational number that a value stands for; what is not finite counts as zero. -/
def value : Binary → ℚ
  | .finite s m e _ => signed s m * 2 ^ e
  | _ => 0

/-- The sign of a value. -/
def sign? : Binary → Option Sign
  | .finite s _ _ _ => some s
  | .zero s => some s
  | .infinity s => some s
  | .notANumber => none

theorem value_nonneg {b : Binary} (sign : b.sign? ≠ some .negative) : 0 ≤ b.value := by
  cases b with
  | finite s m e m_pos =>
      cases s with
      | negative => exact absurd rfl sign
      | positive =>
          simp only [value, signed]
          positivity
  | zero s => exact le_refl _
  | infinity s => exact le_refl _
  | notANumber => exact le_refl _

/-! ### Rounding and packing keep the sign -/

theorem sign_roundWithAccuracy (format : Format) (s : Sign) (m : Nat) (e : Int)
    (accuracy : Accuracy) :
    sign? (roundWithAccuracy format s m e accuracy) = some s := by
  unfold roundWithAccuracy
  dsimp only
  split <;> rfl

theorem sign_normalize {format : Format} {m : Int} (positive : 0 < m) (e : Int) (zeroSign : Sign) :
    sign? (.normalize format m e zeroSign) = some .positive := by
  rw [Float.Model.UnpackedFloat.normalize, Int.compare_eq_gt.2 positive]
  exact sign_roundWithAccuracy ..

/-- The digit that is not packed is the greatest. -/
theorem leading_le {n : Nat} (mantissa : BitVec n) : 2 ^ n ≤ (1#1 ++ mantissa).toNat := by
  rw [BitVec.toNat_append, ← Nat.one_shiftLeft]
  exact Nat.left_le_or

/-- What the sign, the exponent and the mantissa of a packed float stand for. -/
def ofParts (format : Format) (s : Sign) (exponent : BitVec format.exponentBits)
    (mantissa : BitVec format.mantissaBitsWithoutImplicit) : Binary :=
  if exponent = -BitVec.ofNat _ 1 then
    if mantissa = BitVec.ofNat _ 0 then .infinity s else .notANumber
  else if exponent = BitVec.ofNat _ 0 then
    if none : mantissa = BitVec.ofNat _ 0 then .zero s
    else .finite s mantissa.toNat
      (exponent.toNat - (format.exponentBias + format.mantissaBitsWithoutImplicit) + 1)
      (Nat.pos_of_ne_zero fun zero => none (BitVec.eq_of_toNat_eq zero))
  else .finite s (1#1 ++ mantissa).toNat
    (exponent.toNat - (format.exponentBias + format.mantissaBitsWithoutImplicit))
    ((Nat.two_pow_pos _).trans_le (leading_le mantissa))

theorem unpack_eq_ofParts {format : Format} (w : BitVec format.numBits) :
    unpack format w = ofParts format (.ofBitVec (unpackSign w)) (unpackExponent w) (unpackMantissa w) :=
  rfl

theorem unpack_packComponents {format : Format} (s : Sign) (exponent : BitVec format.exponentBits)
    (mantissa : BitVec format.mantissaBitsWithoutImplicit) :
    unpack format (packComponents format s exponent mantissa) = ofParts format s exponent mantissa := by
  rw [unpack_eq_ofParts, unpackSign_packComponents, Sign.ofBitVec_toBitVec,
    unpackExponent_packComponents, unpackMantissa_packComponents]

/-- The significand of a float is its mantissa, in the lowest place, or has one digit more. -/
theorem exists_mantissa_of_unpack {w : BitVec Format.binary64.numBits} {s : Sign} {m : Nat} {e : Int}
    {m_pos : 0 < m} (shape : unpack Format.binary64 w = .finite s m e m_pos) :
    (m = (unpackMantissa w).toNat ∧ e = -1074) ∨
      (m = (1#1 ++ unpackMantissa w).toNat ∧ -1074 ≤ e ∧ e ≤ 971) := by
  rw [unpack_eq_ofParts, ofParts] at shape
  split at shape
  · split at shape <;> cases shape
  case isFalse notAll =>
      split at shape
      case isTrue lowest =>
          split at shape
          · cases shape
          · cases shape
            rw [lowest]
            exact .inl ⟨rfl, rfl⟩
      case isFalse notNone =>
          cases shape
          have top : (unpackExponent w).toNat ≠ 2047 := by
            intro same
            exact notAll (BitVec.eq_of_toNat_eq same)
          have bottom : (unpackExponent w).toNat ≠ 0 := by
            intro same
            exact notNone (BitVec.eq_of_toNat_eq same)
          have places : (unpackExponent w).toNat < 2048 := BitVec.isLt _
          have bias : (Format.binary64.exponentBias : Int) +
              Format.binary64.mantissaBitsWithoutImplicit = 1075 := rfl
          rw [bias]
          refine .inr ⟨rfl, ?_, ?_⟩
          · omega
          · omega

/-- Only the greatest exponent can stand for what is not a number. -/
theorem sign_ofParts {format : Format} {s : Sign} {exponent : BitVec format.exponentBits}
    {mantissa : BitVec format.mantissaBitsWithoutImplicit}
    (number : exponent ≠ -BitVec.ofNat _ 1 ∨ mantissa = BitVec.ofNat _ 0) :
    sign? (ofParts format s exponent mantissa) = some s := by
  unfold ofParts
  split
  case isTrue greatest =>
    rw [if_pos (number.resolve_left (not_not.2 greatest))]
    rfl
  case isFalse =>
    split
    · split <;> rfl
    · rfl

/-- What is packed keeps its sign, also where it overflows. -/
theorem sign_unpack_pack {format : Format} {b : Binary} {s : Sign} (signed : b.sign? = some s) :
    sign? (unpack format (pack format b)) = some s := by
  have greatest : (-BitVec.ofNat format.exponentBits 1).toNat = 2 ^ format.exponentBits - 1 := by
    rw [BitVec.neg_one_eq_allOnes, BitVec.toNat_allOnes]
  have some_bit : 1 < 2 ^ format.exponentBits := Nat.one_lt_two_pow format.he.ne'
  cases b with
  | notANumber => cases signed
  | infinity s' =>
      cases signed
      rw [pack, packedInfinity, unpack_packComponents]
      exact sign_ofParts (.inr rfl)
  | zero s' =>
      cases signed
      rw [pack, packedZero, unpack_packComponents]
      exact sign_ofParts (.inr rfl)
  | finite s' m e m_pos =>
      cases signed
      unfold pack
      simp only
      -- What overflows has an empty mantissa; nothing else has the greatest exponent.
      split
      · rw [packedInfinity, unpack_packComponents]
        exact sign_ofParts (.inr rfl)
      case isFalse within =>
        split
        · rw [unpack_packComponents]
          refine sign_ofParts (.inl fun same => ?_)
          have number := congrArg BitVec.toNat same
          rw [greatest, BitVec.toNat_ofNat, Nat.mod_eq_of_lt (by omega)] at number
          omega
        · rw [unpack_packComponents]
          refine sign_ofParts (.inl fun same => ?_)
          have number := congrArg BitVec.toNat same
          rw [greatest, BitVec.toNat_ofNat, Nat.zero_mod] at number
          omega

theorem eq_zero_or_finite {b : Binary} (finite : b.isFinite) :
    (∃ s, b = .zero s) ∨ ∃ s m e m_pos, b = .finite s m e m_pos := by
  cases b with
  | notANumber => cases finite
  | infinity s => cases finite
  | zero s => exact .inl ⟨s, rfl⟩
  | finite s m e m_pos => exact .inr ⟨s, m, e, m_pos, rfl⟩

theorem eq_zero_or_positive {b : Binary} (finite : b.isFinite) (nonneg : 0 ≤ b.value) :
    (∃ s, b = .zero s) ∨ ∃ m e m_pos, b = .finite .positive m e m_pos := by
  rcases eq_zero_or_finite finite with ⟨s, rfl⟩ | ⟨s, m, e, m_pos, rfl⟩
  · exact .inl ⟨s, rfl⟩
  · cases s with
    | positive => exact .inr ⟨m, e, m_pos, rfl⟩
    | negative =>
        have below : value (.finite .negative m e m_pos) < 0 := by
          have above : (0 : ℚ) < m * 2 ^ e := by positivity
          simpa [value, signed] using above
        exact absurd nonneg (not_le.2 below)

theorem exists_positive {b : Binary} (positive : 0 < b.value) :
    ∃ m e m_pos, b = .finite .positive m e m_pos := by
  have finite : b.isFinite := by
    cases b with
    | notANumber => exact absurd positive (lt_irrefl 0)
    | infinity s => exact absurd positive (lt_irrefl 0)
    | zero s => rfl
    | finite s m e m_pos => rfl
  rcases eq_zero_or_positive finite positive.le with ⟨s, rfl⟩ | found
  · exact absurd positive (lt_irrefl 0)
  · exact found

/-- What is finite and above zero has the sign of positive values. -/
theorem exists_of_zero_lt {b : Binary} (finite : b.isFinite) {s : Sign}
    (above : (Float.Model.UnpackedFloat.zero s).lt b) : ∃ m e m_pos, b = .finite .positive m e m_pos := by
  rcases eq_zero_or_finite finite with ⟨s', rfl⟩ | ⟨s', m, e, m_pos, rfl⟩
  · cases above
  · cases s' with
    | negative => cases above
    | positive => exact ⟨m, e, m_pos, rfl⟩

/-- A finite value that is not negative and a positive one have a positive sum, until it is
rounded. -/
theorem sign_add {format : Format} {a b : Binary} (finite : a.isFinite) (nonneg : 0 ≤ a.value)
    (positive : 0 < b.value) : sign? (add format a b) = some .positive := by
  obtain ⟨m, e, m_pos, rfl⟩ := exists_positive positive
  rcases eq_zero_or_positive finite nonneg with ⟨s, rfl⟩ | ⟨n, k, n_pos, rfl⟩
  · rfl
  · apply sign_normalize
    have left : 0 < n <<< (k - min k e).toNat := by
      rw [Nat.shiftLeft_eq]
      exact Nat.mul_pos n_pos (Nat.two_pow_pos _)
    have right := Int.natCast_nonneg (m <<< (e - min k e).toNat)
    exact Int.add_pos_of_pos_of_nonneg (Int.natCast_pos.2 left) right

end Binary

/-- The rational number that a float stands for; what is not finite counts as zero. -/
def value (x : Float) : ℚ :=
  (binary x).value

theorem binary_zero : binary 0 = .zero .positive := rfl

theorem lt_iff_lt_binary {x y : Float} :
    x < y ↔ (binary x).lt (binary y) := decide_eq_true_iff

/-- A time at which a flash can start is not negative. -/
theorem value_nonneg_of_isStartTime {x : Float} (start : Design.isStartTime x) : 0 ≤ value x := by
  simp [Design.isStartTime] at start
  rcases start with ⟨_, notBelow⟩
  rw [lt_iff_lt_binary, binary_zero] at notBelow
  unfold value
  cases shape : binary x with
  | notANumber => exact le_refl _
  | infinity s => exact le_refl _
  | zero s => exact le_refl _
  | finite s m e m_pos =>
      cases s with
      | positive =>
          apply Binary.value_nonneg
          intro negative
          cases negative
      | negative =>
          rw [shape] at notBelow
          exact absurd rfl notBelow

/-- A positive finite float is a positive number. -/
theorem value_pos {x : Float} (finite : x.isFinite) (positive : 0 < x) : 0 < value x := by
  have number : (binary x).isFinite := finite
  rw [lt_iff_lt_binary, binary_zero] at positive
  obtain ⟨m, e, m_pos, shape⟩ := Binary.exists_of_zero_lt number positive
  rw [value, shape]
  simp only [Binary.value, signed]
  positivity

/-- The sum of a time and a duration has no minus sign, also when it is rounded. -/
theorem sign_add {x y : Float} (finite : x.isFinite) (nonneg : 0 ≤ value x)
    (positive : 0 < value y) : (binary (x + y)).sign? = some .positive := by
  have packed : binary (x + y) = unpack Format.binary64
      (pack Format.binary64 (add Format.binary64 (binary x) (binary y))) := rfl
  rw [packed]
  exact Binary.sign_unpack_pack (Binary.sign_add finite nonneg positive)

/-- Nor is it negative. -/
theorem value_add_nonneg {x y : Float} (finite : x.isFinite) (nonneg : 0 ≤ value x)
    (positive : 0 < value y) : 0 ≤ value (x + y) := by
  apply Binary.value_nonneg
  rw [sign_add finite nonneg positive]
  exact nofun

end Emblem.Number
