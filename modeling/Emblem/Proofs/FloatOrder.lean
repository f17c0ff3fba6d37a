/-
Module: Emblem.Proofs.FloatOrder
Purpose: Finite floats are in the order of their numbers. Floats are compared place before significand,
  which is right as their significands have all their digits, or are in the least place.
Main exports: Binary.Canonical.compare_eq, le_iff_value_le
-/
import Emblem.Proofs.FloatArithmetic
import Mathlib.Algebra.Order.Ring.Unbundled.Basic
import Mathlib.Order.Compare

namespace Emblem.Number

namespace Binary

section Order

variable {m n : Nat} {e k : Int} {m_pos : 0 < m} {n_pos : 0 < n}

theorem value_positive : 0 < value (.finite .positive m e m_pos) := by
  have number : (0 : ℚ) < m * 2 ^ e := mul_pos (Nat.cast_pos.2 m_pos) (two_zpow_pos e)
  simpa [value, signed] using number

theorem value_negative :
    value (.finite .negative m e m_pos) = -value (.finite .positive m e m_pos) := by
  simp [value, signed]

/-- In a lower place there are only lower values. -/
theorem value_lt_of_lt (left : Canonical (.finite .positive m e m_pos))
    (right : Canonical (.finite .positive n k n_pos)) (lower : e < k) :
    value (.finite .positive m e m_pos) < value (.finite .positive n k n_pos) := by
  have many : 2 ^ 52 ≤ n := right.2.2.resolve_left (by have := left.2.1; omega)
  have fitsCast : (m : ℚ) < 2 ^ 53 := by exact_mod_cast left.1
  have manyCast : (2 : ℚ) ^ 52 ≤ n := by exact_mod_cast many
  simp only [value, signed, Int.cast_natCast]
  calc
    (m : ℚ) * 2 ^ e < 2 ^ 53 * 2 ^ e := mul_lt_mul_of_pos_right fitsCast (two_zpow_pos e)
    _ = 2 ^ 52 * 2 ^ (e + 1) := by rw [two_zpow_add]; ring
    _ ≤ 2 ^ 52 * 2 ^ k := mul_le_mul_of_nonneg_left (two_zpow_le (by omega)) (by norm_num)
    _ ≤ n * 2 ^ k := mul_le_mul_of_nonneg_right manyCast (two_zpow_pos k).le

/-- Places count before significands. -/
theorem compare_positive (left : Canonical (.finite .positive m e m_pos))
    (right : Canonical (.finite .positive n k n_pos)) :
    (compare e k).then (compare m n) =
      cmp (value (.finite .positive m e m_pos)) (value (.finite .positive n k n_pos)) := by
  rcases lt_trichotomy e k with lower | rfl | higher
  · rw [Int.compare_eq_lt.2 lower, (cmp_eq_lt_iff _ _).2 (value_lt_of_lt left right lower)]
    rfl
  · have places : compare e e = .eq := Int.compare_eq_eq.2 rfl
    have first : value (.finite .positive m e m_pos) = m * 2 ^ e := rfl
    have second : value (.finite .positive n e n_pos) = n * 2 ^ e := rfl
    rw [places, Ordering.eq_then, first, second, cmp_mul_pos_right (two_zpow_pos e),
      Nat.strictMono_cast.cmp_map_eq, cmp_eq_compare]
  · rw [Int.compare_eq_gt.2 higher, (cmp_eq_gt_iff _ _).2 (value_lt_of_lt right left higher)]
    rfl

end Order

/-- Canonical finite values are compared as numbers are. -/
theorem Canonical.compare_eq {a b : Binary} (left : a.Canonical) (right : b.Canonical)
    (finite : a.isFinite) (finite' : b.isFinite) :
    Float.Model.UnpackedFloat.compare a b = some (cmp a.value b.value) := by
  cases a with
  | notANumber => cases finite
  | infinity s => cases finite
  | zero s =>
      have none : value (.zero s) = 0 := rfl
      cases b with
      | notANumber => cases finite'
      | infinity s' => cases finite'
      | zero s' =>
          have none' : value (.zero s') = 0 := rfl
          rw [none, none', cmp_self_eq_eq]
          rfl
      | finite s' n k n_pos =>
          rw [none]
          cases s' with
          | positive =>
              rw [(cmp_eq_lt_iff _ _).2 value_positive]
              rfl
          | negative =>
              rw [value_negative, (cmp_eq_gt_iff _ _).2 (neg_neg_of_pos value_positive)]
              rfl
  | finite s m e m_pos =>
      cases b with
      | notANumber => cases finite'
      | infinity s' => cases finite'
      | zero s' =>
          have none' : value (.zero s') = 0 := rfl
          rw [none']
          cases s with
          | positive =>
              rw [(cmp_eq_gt_iff _ _).2 value_positive]
              rfl
          | negative =>
              rw [value_negative, (cmp_eq_lt_iff _ _).2 (neg_neg_of_pos value_positive)]
              rfl
      | finite s' n k n_pos =>
          cases s with
          | positive =>
              cases s' with
              | positive => exact congrArg some (compare_positive left right)
              | negative =>
                  rw [value_negative, (cmp_eq_gt_iff _ _).2
                    ((neg_neg_of_pos value_positive).trans value_positive)]
                  rfl
          | negative =>
              cases s' with
              | positive =>
                  rw [value_negative, (cmp_eq_lt_iff _ _).2
                    ((neg_neg_of_pos value_positive).trans value_positive)]
                  rfl
              | negative =>
                  have ordered :
                      (compare e k).then (compare m n) =
                        cmp (value (.finite .positive m e m_pos))
                          (value (.finite .positive n k n_pos)) :=
                    compare_positive left right
                  have reverses : StrictAnti fun q : ℚ => -q := fun _ _ less => neg_lt_neg less
                  have turned := reverses.cmp_map_eq
                    (value (.finite .positive m e m_pos)) (value (.finite .positive n k n_pos))
                  rw [value_negative, value_negative, turned, ← cmp_swap, ← ordered]
                  rfl

end Binary

/-- Finite floats are in the order of their numbers. -/
theorem le_iff_value_le {x y : Float} (finite : x.isFinite) (finite' : y.isFinite) :
    x ≤ y ↔ value x ≤ value y := by
  have compared : x ≤ y ↔
      ((Float.Model.UnpackedFloat.compare (binary x) (binary y)).any (·.isLE)) = true := decide_eq_true_iff
  rw [compared, (canonical_binary x).compare_eq (canonical_binary y) finite finite']
  rw [Option.any_some, Ordering.isLE_iff_ne_gt, cmp_eq_gt_iff, not_lt, value, value]

end Emblem.Number
