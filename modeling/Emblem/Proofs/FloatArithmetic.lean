/-
Module: Emblem.Proofs.FloatArithmetic
Purpose: Arithmetic on floats as arithmetic on exact numbers. A sum, difference or product of finite
  floats is the exact one rounded, or an infinity if this overflows.
Main exports: Binary.Canonical.unpack_pack, canonical_binary, IsRounded, isRounded_add,
  isRounded_sub, isRounded_mul, value_neg
-/
import Emblem.Proofs.FloatRounding

namespace Emblem.Number

open Float.Model (Format)
open Float.Model.UnpackedFloat (Sign decreaseExponent add sub mul neg pack packComponents unpack)

/-! ### Operations on canonical values -/

/-- Two significands are added in the lower one of their places. -/
theorem signed_decrease (s : Sign) {m : Nat} {e t : Int} (le : t ≤ e) :
    ((s.apply ((decreaseExponent m e t).1 : Int) : Int) : ℚ) * 2 ^ t = signed s m * 2 ^ e := by
  have reached : t = e - ((e - t).toNat : Int) := by omega
  have unsigned := shiftLeft_value m e (e - t).toNat
  rw [← reached] at unsigned
  cases s <;>
    simp only [Sign.apply, decreaseExponent, signed, Int.cast_neg, Int.cast_natCast, neg_mul,
      unsigned]

namespace Binary

variable {a b : Binary}

theorem rounded_zero (s : Sign) : Rounded (.zero s) 0 :=
  ⟨trivial, rfl, rounds_zero⟩

/-- The sum of canonical values is the exact sum rounded. -/
theorem Canonical.rounded_add (left : a.Canonical) (right : b.Canonical) (finite : a.isFinite)
    (finite' : b.isFinite) : Rounded (add Format.binary64 a b) (a.value + b.value) := by
  cases a with
  | notANumber => cases finite
  | infinity s => cases finite
  | zero s =>
      cases b with
      | notANumber => cases finite'
      | infinity s' => cases finite'
      | zero s' =>
          simp only [add, value, add_zero]
          split
          · exact rounded_zero s
          · exact rounded_zero .positive
      | finite s' n k n_pos =>
          have absent : value (.zero s) = 0 := rfl
          rw [absent, zero_add]
          exact right.rounded finite'
  | finite s m e m_pos =>
      cases b with
      | notANumber => cases finite'
      | infinity s' => cases finite'
      | zero s' =>
          have absent : value (.zero s') = 0 := rfl
          rw [absent, add_zero]
          exact left.rounded finite
      | finite s' n k n_pos =>
          have first := signed_decrease s (m := m) (min_le_left e k)
          have second := signed_decrease s' (m := n) (min_le_right e k)
          have sum := rounded_normalize
            (s.apply (decreaseExponent m e (min e k)).1 + s'.apply (decreaseExponent n k (min e k)).1)
            (min e k) .positive
          rw [Int.cast_add, add_mul, first, second] at sum
          exact sum

/-- So is their difference. -/
theorem Canonical.rounded_sub (left : a.Canonical) (right : b.Canonical) (finite : a.isFinite)
    (finite' : b.isFinite) : Rounded (sub Format.binary64 a b) (a.value - b.value) := by
  cases a with
  | notANumber => cases finite
  | infinity s => cases finite
  | zero s =>
      cases b with
      | notANumber => cases finite'
      | infinity s' => cases finite'
      | zero s' =>
          simp only [sub, value, sub_zero]
          split
          · exact rounded_zero s
          · exact rounded_zero .positive
      | finite s' n k n_pos =>
          have turned : Canonical (.finite (-s') n k n_pos) := right
          have absent : value (.zero s) = 0 := rfl
          have negative : value (.finite (-s') n k n_pos) = -value (.finite s' n k n_pos) := by
            simp only [value, signed_neg, Int.cast_neg, neg_mul]
          rw [absent, zero_sub, ← negative]
          exact turned.rounded rfl
  | finite s m e m_pos =>
      cases b with
      | notANumber => cases finite'
      | infinity s' => cases finite'
      | zero s' =>
          have absent : value (.zero s') = 0 := rfl
          rw [absent, sub_zero]
          exact left.rounded finite
      | finite s' n k n_pos =>
          have first := signed_decrease s (m := m) (min_le_left e k)
          have second := signed_decrease s' (m := n) (min_le_right e k)
          have difference := rounded_normalize
            (s.apply (decreaseExponent m e (min e k)).1 - s'.apply (decreaseExponent n k (min e k)).1)
            (min e k) .positive
          rw [Int.cast_sub, sub_mul, first, second] at difference
          exact difference

/-- The product of two significands has all the places of its float. -/
theorem le_place_mul {m n : Nat} {e k : Int} (m_pos : 0 < m) (n_pos : 0 < n)
    (left : Canonical (.finite .positive m e m_pos))
    (right : Canonical (.finite .positive n k n_pos)) : e + k ≤ place (m * n) (e + k) := by
  obtain ⟨_, _, full⟩ := left
  obtain ⟨_, _, full'⟩ := right
  rw [place_eq]
  by_cases many : 2 ^ 52 ≤ m * n
  · have digits : 52 ≤ (m * n).log2 := (Nat.le_log2 (Nat.mul_pos m_pos n_pos).ne').2 many
    omega
  · have few : ¬2 ^ 52 ≤ m := fun many' => many (many'.trans (Nat.le_mul_of_pos_right m n_pos))
    have few' : ¬2 ^ 52 ≤ n := fun many' => many (many'.trans (Nat.le_mul_of_pos_left n m_pos))
    have lowest := full.resolve_right few
    have lowest' := full'.resolve_right few'
    omega

/-- And so is their product. -/
theorem Canonical.rounded_mul (left : a.Canonical) (right : b.Canonical) (finite : a.isFinite)
    (finite' : b.isFinite) : Rounded (mul Format.binary64 a b) (a.value * b.value) := by
  cases a with
  | notANumber => cases finite
  | infinity s => cases finite
  | zero s =>
      have absent : value (.zero s) = 0 := rfl
      rw [absent, zero_mul]
      cases b with
      | notANumber => cases finite'
      | infinity s' => cases finite'
      | zero s' => exact rounded_zero _
      | finite s' n k n_pos => exact rounded_zero _
  | finite s m e m_pos =>
      cases b with
      | notANumber => cases finite'
      | infinity s' => cases finite'
      | zero s' =>
          have absent : value (.zero s') = 0 := rfl
          rw [absent, mul_zero]
          exact rounded_zero _
      | finite s' n k n_pos =>
          have product := rounded_roundWithAccuracy (Nat.mul_pos m_pos n_pos)
            (le_place_mul m_pos n_pos left right) (s * s')
          have exact_value : value (.finite s m e m_pos) * value (.finite s' n k n_pos) =
              signed (s * s') (m * n) * 2 ^ (e + k) := by
            simp only [value, signed_mul, two_zpow_add, Int.cast_mul]
            ring
          rw [exact_value]
          exact product

end Binary

/-- A value is negated without rounding. -/
theorem Binary.Canonical.rounded_neg {b : Binary} (canonical : b.Canonical) (finite : b.isFinite) :
    Binary.Rounded (neg b) (-b.value) := by
  cases b with
  | notANumber => cases finite
  | infinity s => cases finite
  | zero s =>
      have absent : -Binary.value (.zero s) = 0 := neg_zero
      rw [absent]
      exact Binary.rounded_zero (-s)
  | finite s m e m_pos =>
      have turned : Binary.Canonical (.finite (-s) m e m_pos) := canonical
      have negative : Binary.value (.finite (-s) m e m_pos) = -Binary.value (.finite s m e m_pos) := by
        simp only [Binary.value, signed_neg, Int.cast_neg, neg_mul]
      rw [← negative]
      exact turned.rounded rfl

/-! ### Packing -/

namespace Binary

open Float.Model.UnpackedFloat (packedInfinity unpackExponent unpackMantissa unpack_packedZero)

theorem finite_congr {s : Sign} {m n : Nat} {e k : Int} {m_pos : 0 < m} {n_pos : 0 < n} (same : m = n)
    (there : e = k) : (.finite s m e m_pos : Binary) = .finite s n k n_pos := by
  subst same there
  rfl

theorem unpack_packedInfinity (s : Sign) :
    unpack Format.binary64 (packedInfinity Format.binary64 s) = .infinity s := by
  have written : packedInfinity Format.binary64 s =
      packComponents Format.binary64 s (-1#11) 0#52 := rfl
  rw [written, unpack_packComponents, ofParts, if_pos rfl, if_pos rfl]

/-- A significand of 53 digits is packed without its first one. -/
theorem unpack_normal (s : Sign) {m : Nat} {e : Int} (m_pos : 0 < m) (fits : m < 2 ^ 53)
    (full : 2 ^ 52 ≤ m) (least : -1074 ≤ e) (greatest : e ≤ 971) :
    unpack Format.binary64 (packComponents Format.binary64 s
      (BitVec.ofNat 11 (e + 1075).toNat) (BitVec.ofNat 52 m)) = .finite s m e m_pos := by
  have biased : (BitVec.ofNat 11 (e + 1075).toNat).toNat = (e + 1075).toNat := by
    rw [BitVec.toNat_ofNat, Nat.mod_eq_of_lt (by omega)]
  have notAll : BitVec.ofNat 11 (e + 1075).toNat ≠ -1#11 := by
    intro same
    have number : (e + 1075).toNat = 2047 := biased.symm.trans (congrArg BitVec.toNat same)
    omega
  have notNone : BitVec.ofNat 11 (e + 1075).toNat ≠ 0#11 := by
    intro same
    have number : (e + 1075).toNat = 0 := biased.symm.trans (congrArg BitVec.toNat same)
    omega
  have digits : (1#1 ++ BitVec.ofNat 52 m).toNat = m := by
    rw [BitVec.toNat_append, BitVec.toNat_ofNat, ← Nat.shiftLeft_add_eq_or_of_lt (by omega),
      Nat.shiftLeft_eq]
    norm_num
    omega
  have exponent : ((BitVec.ofNat 11 (e + 1075).toNat).toNat : Int) - (1023 + 52) = e := by
    rw [biased]
    omega
  rw [unpack_packComponents, ofParts, if_neg notAll, if_neg notNone]
  exact finite_congr digits exponent

/-- Fewer digits are packed as they are. -/
theorem unpack_subnormal (s : Sign) {m : Nat} (m_pos : 0 < m) (few : m < 2 ^ 52) :
    unpack Format.binary64 (packComponents Format.binary64 s 0#11 (BitVec.ofNat 52 m)) =
      .finite s m (-1074) m_pos := by
  have digits : (BitVec.ofNat 52 m).toNat = m := by
    rw [BitVec.toNat_ofNat, Nat.mod_eq_of_lt few]
  have some_digit : BitVec.ofNat 52 m ≠ 0#52 := by
    intro same
    have number : m = 0 := digits.symm.trans (congrArg BitVec.toNat same)
    omega
  have notAll : 0#11 ≠ -1#11 := by decide
  rw [unpack_packComponents, ofParts, if_neg notAll, if_pos rfl, dif_neg some_digit]
  exact finite_congr digits rfl

/-- A canonical value is packed as it is, unless its place is beyond those of floats. -/
theorem Canonical.unpack_pack {s : Sign} {m : Nat} {e : Int} {m_pos : 0 < m}
    (canonical : Canonical (.finite s m e m_pos)) :
    unpack Format.binary64 (pack Format.binary64 (.finite s m e m_pos)) =
      if e ≤ 971 then .finite s m e m_pos else .infinity s := by
  obtain ⟨fits, least, full⟩ := canonical
  have written : pack Format.binary64 (.finite s m e m_pos) =
      if 2048 ≤ (e + 1023 + 52).toNat + 1 then packedInfinity Format.binary64 s
      else if m.log2 + 1 = 53 then
        packComponents Format.binary64 s (BitVec.ofNat 11 (e + 1023 + 52).toNat) (BitVec.ofNat 52 m)
      else packComponents Format.binary64 s 0#11 (BitVec.ofNat 52 m) := rfl
  have bias : e + 1023 + 52 = e + 1075 := by ring
  rw [written, bias]
  split
  case isTrue beyond =>
      rw [unpack_packedInfinity, if_neg (by omega)]
  case isFalse within =>
      have greatest : e ≤ 971 := by omega
      rw [if_pos greatest]
      by_cases normal : 2 ^ 52 ≤ m
      · have many : 52 ≤ m.log2 := (Nat.le_log2 m_pos.ne').2 normal
        have few : m.log2 < 53 := (Nat.log2_lt m_pos.ne').2 fits
        rw [if_pos (by omega)]
        exact unpack_normal s m_pos fits normal least greatest
      · have few : m.log2 < 52 := (Nat.log2_lt m_pos.ne').2 (by omega)
        have lowest := full.resolve_right normal
        subst lowest
        rw [if_neg (by omega)]
        exact unpack_subnormal s m_pos (by omega)

/-- The place of a canonical value tells whether it is below all powers of two beyond floats. -/
theorem Canonical.abs_value_lt_iff {s : Sign} {m : Nat} {e : Int} {m_pos : 0 < m}
    (canonical : Canonical (.finite s m e m_pos)) :
    |value (.finite s m e m_pos)| < 2 ^ (1024 : ℤ) ↔ e ≤ 971 := by
  obtain ⟨fits, _, full⟩ := canonical
  have size : |value (.finite s m e m_pos)| = m * 2 ^ e := by
    cases s <;> simp [value, signed, abs_mul, abs_of_pos (two_zpow_pos e)]
  have fitsCast : (m : ℚ) < 2 ^ (53 : ℤ) := by exact_mod_cast fits
  rw [size]
  constructor
  · intro below
    by_contra beyond
    have many : 2 ^ 52 ≤ m := full.resolve_left (by omega)
    have manyCast : (2 : ℚ) ^ (52 : ℤ) ≤ m := by exact_mod_cast many
    have reached : (2 : ℚ) ^ (1024 : ℤ) ≤ m * 2 ^ e := calc
      (2 : ℚ) ^ (1024 : ℤ) = 2 ^ (52 : ℤ) * 2 ^ (972 : ℤ) := two_zpow_add 52 972
      _ ≤ 2 ^ (52 : ℤ) * 2 ^ e :=
        mul_le_mul_of_nonneg_left (two_zpow_le (by omega)) (two_zpow_pos 52).le
      _ ≤ m * 2 ^ e := mul_le_mul_of_nonneg_right manyCast (two_zpow_pos e).le
    exact absurd below (not_lt.2 reached)
  · intro within
    calc
      (m : ℚ) * 2 ^ e < 2 ^ (53 : ℤ) * 2 ^ e := mul_lt_mul_of_pos_right fitsCast (two_zpow_pos e)
      _ ≤ 2 ^ (53 : ℤ) * 2 ^ (971 : ℤ) :=
        mul_le_mul_of_nonneg_left (two_zpow_le within) (two_zpow_pos 53).le
      _ = 2 ^ (1024 : ℤ) := (two_zpow_add 53 971).symm

/-- The infinity on one side of zero. -/
def infinite (x : ℚ) : Binary :=
  .infinity (if 0 ≤ x then .positive else .negative)

/-- What was rounded is packed as it is, or as an infinity if it overflows. -/
theorem Rounded.unpack_pack {b : Binary} {x : ℚ} (rounded : b.Rounded x) :
    unpack Format.binary64 (pack Format.binary64 b) = if |x| < overflow then b else infinite x := by
  obtain ⟨canonical, finite, rounds⟩ := rounded
  -- What is rounded reaches `2 ^ 1024` just if what it is rounded from overflows.
  have within := rounds.lt_iff
  cases b with
  | notANumber => cases finite
  | infinity s => cases finite
  | zero s =>
      have small : |value (.zero s)| < 2 ^ (1024 : ℤ) := by
        have none : value (.zero s) = 0 := rfl
        rw [none, abs_zero]
        exact two_zpow_pos 1024
      rw [if_pos (within.1 small)]
      exact unpack_packedZero
  | finite s m e m_pos =>
      rw [canonical.abs_value_lt_iff] at within
      rw [canonical.unpack_pack]
      by_cases fits : e ≤ 971
      · rw [if_pos fits, if_pos (within.1 fits)]
      · have number : (0 : ℚ) < m * 2 ^ e := mul_pos (Nat.cast_pos.2 m_pos) (two_zpow_pos e)
        rw [if_neg fits, if_neg (fun below => fits (within.2 below)), infinite]
        cases s with
        | positive =>
            have positive : 0 ≤ x := by
              by_contra below
              have reached := rounds.nonpos (not_le.1 below).le
              simp only [value, signed, Int.cast_natCast] at reached
              exact absurd number (not_lt.2 reached)
            rw [if_pos positive]
        | negative =>
            have negative : ¬0 ≤ x := by
              intro above
              have reached := rounds.nonneg above
              simp only [value, signed, Int.cast_neg, Int.cast_natCast, neg_mul] at reached
              linarith
            rw [if_neg negative]

/-- Floats are canonical, and their places end where floats do. -/
theorem bounds_of_unpack {w : BitVec Format.binary64.numBits} {s : Sign} {m : Nat} {e : Int} {m_pos : 0 < m}
    (shape : unpack Format.binary64 w = .finite s m e m_pos) :
    Canonical (.finite s m e m_pos) ∧ e ≤ 971 := by
  rcases exists_mantissa_of_unpack shape with ⟨rfl, rfl⟩ | ⟨rfl, least, greatest⟩
  · exact ⟨⟨(BitVec.isLt _).trans (by norm_num), by decide, .inl rfl⟩, by decide⟩
  · exact ⟨⟨BitVec.isLt _, least, .inr (leading_le (unpackMantissa w))⟩, greatest⟩

end Binary

/-! ### Operations on floats -/

theorem canonical_binary (x : Float) : (binary x).Canonical := by
  cases shape : binary x with
  | notANumber => trivial
  | infinity s => trivial
  | zero s => trivial
  | finite s m e m_pos => exact (Binary.bounds_of_unpack shape).1

theorem abs_value_lt (x : Float) : |value x| < 2 ^ (1024 : ℤ) := by
  have zero : |(0 : ℚ)| < 2 ^ (1024 : ℤ) := by
    rw [abs_zero]
    exact two_zpow_pos 1024
  unfold value
  cases shape : binary x with
  | notANumber => exact zero
  | infinity s => exact zero
  | zero s => exact zero
  | finite s m e m_pos =>
      obtain ⟨canonical, greatest⟩ := Binary.bounds_of_unpack shape
      exact canonical.abs_value_lt_iff.2 greatest

/-- A float is a number rounded: to the nearest one that floats can hold, or to an infinity if it
overflows. -/
structure IsRounded (z : Float) (x : ℚ) : Prop where
  isFinite_iff : z.isFinite ↔ |x| < overflow
  rounds : z.isFinite → Rounds x (value z)
  infinite : ¬z.isFinite → binary z = Binary.infinite x

theorem IsRounded.of_packed {z : Float} {b : Binary} {x : ℚ} (rounded : b.Rounded x)
    (packed : binary z = unpack Format.binary64 (pack Format.binary64 b)) : IsRounded z x := by
  have finite_iff : z.isFinite ↔ (binary z).isFinite := Iff.rfl
  rw [rounded.unpack_pack] at packed
  by_cases within : |x| < overflow
  · rw [if_pos within] at packed
    have finite : z.isFinite := by
      rw [finite_iff, packed]
      exact rounded.finite
    refine ⟨iff_of_true finite within, fun _ => ?_, fun bad => absurd finite bad⟩
    rw [value, packed]
    exact rounded.rounds
  · rw [if_neg within] at packed
    have notFinite : ¬z.isFinite := by
      rw [finite_iff, packed]
      simp [Binary.infinite, Float.Model.UnpackedFloat.isFinite]
    exact ⟨iff_of_false notFinite within, fun finite => absurd finite notFinite, fun _ => packed⟩

section Operations

variable {x y : Float} (finite : x.isFinite) (finite' : y.isFinite)

include finite finite'

theorem isRounded_add : IsRounded (x + y) (value x + value y) :=
  .of_packed ((canonical_binary x).rounded_add (canonical_binary y) finite finite') rfl

theorem isRounded_sub : IsRounded (x - y) (value x - value y) :=
  .of_packed ((canonical_binary x).rounded_sub (canonical_binary y) finite finite') rfl

theorem isRounded_mul : IsRounded (x * y) (value x * value y) :=
  .of_packed ((canonical_binary x).rounded_mul (canonical_binary y) finite finite') rfl

end Operations

/-- Finite floats are rounded already. -/
theorem rounds_value {x : Float} (finite : x.isFinite) : Rounds (value x) (value x) :=
  ((canonical_binary x).rounded finite).rounds

/-- They do not overflow. -/
theorem abs_value_lt_overflow {x : Float} (finite : x.isFinite) : |value x| < overflow :=
  (rounds_value finite).lt_iff.1 (abs_value_lt x)

theorem isFinite_neg {x : Float} (finite : x.isFinite) : (-x).isFinite := by
  have rounded : IsRounded (-x) (-value x) :=
    .of_packed ((canonical_binary x).rounded_neg finite) rfl
  rw [rounded.isFinite_iff, abs_neg]
  exact abs_value_lt_overflow finite

theorem value_neg {x : Float} (finite : x.isFinite) : value (-x) = -value x := by
  have rounded : IsRounded (-x) (-value x) :=
    .of_packed ((canonical_binary x).rounded_neg finite) rfl
  exact (rounded.rounds (isFinite_neg finite)).unique (rounds_value finite).neg

end Emblem.Number
