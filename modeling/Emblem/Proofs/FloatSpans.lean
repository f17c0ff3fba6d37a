/-
Module: Emblem.Proofs.FloatSpans
Purpose: Spans of time, which are floats that are not negative and may be infinite. They are in the
  order of their extents, and a sum with a positive float keeps this order, also where it overflows.
Main exports: IsSpan, extent, IsSpan.le_iff, IsSpan.lt_iff, IsSpan.add, IsSpan.extent_add_mono,
  IsSpan.extent_le_add
-/
import Emblem.Proofs.FloatOrder
import Mathlib.Order.WithBot

namespace Emblem.Number

/-- A float is finite and not negative, or it is the infinity above zero. -/
def IsSpan (x : Float) : Prop :=
  (x.isFinite ∧ 0 ≤ value x) ∨ binary x = .infinity .positive

/-- The number that a float stands for; what is not finite counts as more than all numbers. -/
def extent (x : Float) : WithTop ℚ :=
  if x.isFinite then (value x : WithTop ℚ) else ⊤

section Extents

variable {x y : Float}

theorem extent_of_finite (finite : x.isFinite) : extent x = value x :=
  if_pos finite

theorem not_finite_of_infinite {s : Float.Model.UnpackedFloat.Sign} (infinite : binary x = .infinity s) :
    ¬x.isFinite := by
  have finite_iff : x.isFinite ↔ (binary x).isFinite := Iff.rfl
  rw [finite_iff, infinite]
  exact Bool.false_ne_true

theorem extent_of_infinite (infinite : binary x = .infinity .positive) : extent x = ⊤ :=
  if_neg (not_finite_of_infinite infinite)

/-- What is finite compares as less than the infinity above zero. -/
theorem compare_infinite (finite : x.isFinite) :
    Float.Model.UnpackedFloat.compare (binary x) (.infinity .positive) = some .lt ∧
      Float.Model.UnpackedFloat.compare (.infinity .positive) (binary x) = some .gt := by
  have number : (binary x).isFinite := finite
  cases shape : binary x with
  | notANumber =>
      rw [shape] at number
      cases number
  | infinity s =>
      rw [shape] at number
      cases number
  | zero s => exact ⟨rfl, rfl⟩
  | finite s m e m_pos => exact ⟨rfl, rfl⟩

namespace IsSpan

/-- Spans are compared as their extents are. -/
theorem compare_eq (left : IsSpan x) (right : IsSpan y) :
    Float.Model.UnpackedFloat.compare (binary x) (binary y) = some (cmp (extent x) (extent y)) := by
  rcases left with ⟨finite, _⟩ | infinite
  · rcases right with ⟨finite', _⟩ | infinite'
    · have numbers := (WithTop.coe_strictMono (α := ℚ)).cmp_map_eq (value x) (value y)
      rw [extent_of_finite finite, extent_of_finite finite', numbers]
      exact (canonical_binary x).compare_eq (canonical_binary y) finite finite'
    · rw [infinite', (compare_infinite finite).1, extent_of_finite finite, extent_of_infinite infinite',
        (cmp_eq_lt_iff _ _).2 (WithTop.coe_lt_top _)]
  · rcases right with ⟨finite', _⟩ | infinite'
    · rw [infinite, (compare_infinite finite').2, extent_of_finite finite', extent_of_infinite infinite,
        (cmp_eq_gt_iff _ _).2 (WithTop.coe_lt_top _)]
    · rw [infinite, infinite', extent_of_infinite infinite, extent_of_infinite infinite', cmp_self_eq_eq]
      rfl

theorem le_iff (left : IsSpan x) (right : IsSpan y) : x ≤ y ↔ extent x ≤ extent y := by
  have compared : x ≤ y ↔
      ((Float.Model.UnpackedFloat.compare (binary x) (binary y)).any (·.isLE)) = true := decide_eq_true_iff
  rw [compared, left.compare_eq right, Option.any_some, Ordering.isLE_iff_ne_gt, cmp_eq_gt_iff, not_lt]

theorem lt_iff (left : IsSpan x) (right : IsSpan y) : x < y ↔ extent x < extent y := by
  rw [lt_iff_lt_binary, Float.Model.UnpackedFloat.lt, left.compare_eq right, beq_iff_eq, Option.some_inj,
    cmp_eq_lt_iff]

theorem extent_nonneg (span : IsSpan x) : 0 ≤ extent x := by
  rcases span with ⟨finite, nonneg⟩ | infinite
  · rw [extent_of_finite finite]
    exact WithTop.coe_nonneg.2 nonneg
  · rw [extent_of_infinite infinite]
    exact le_top

/-- A span is a number. -/
theorem isNaN_eq_false (span : IsSpan x) : x.isNaN = false := by
  have nan : x.isNaN = (binary x).isNaN := rfl
  rw [nan]
  rcases span with ⟨finite, _⟩ | infinite
  · have number : (binary x).isFinite := finite
    cases shape : binary x with
    | notANumber =>
        rw [shape] at number
        cases number
    | infinity s => rfl
    | zero s => rfl
    | finite s m e m_pos => rfl
  · rw [infinite]
    rfl

end IsSpan

theorem isSpan_zero : IsSpan 0 :=
  .inl ⟨rfl, le_refl (0 : ℚ)⟩

theorem extent_zero : extent 0 = 0 :=
  extent_of_finite rfl

end Extents

/-! ### Sums -/

section Sums

variable {x x' y : Float} (positive : 0 < value y)

include positive

theorem isFinite_of_value_pos : y.isFinite := by
  have finite_iff : y.isFinite ↔ (binary y).isFinite := Iff.rfl
  obtain ⟨m, e, m_pos, shape⟩ := Binary.exists_positive positive
  rw [finite_iff, shape]
  rfl

/-- What is added to the infinity is lost. -/
theorem binary_add_of_infinite (infinite : binary x = .infinity .positive) :
    binary (x + y) = .infinity .positive := by
  obtain ⟨m, e, m_pos, shape⟩ := Binary.exists_positive positive
  have packed : binary (x + y) = Float.Model.UnpackedFloat.unpack Float.Model.Format.binary64
      (Float.Model.UnpackedFloat.pack Float.Model.Format.binary64
        (Float.Model.UnpackedFloat.add Float.Model.Format.binary64 (binary x) (binary y))) := rfl
  rw [packed, infinite, shape]
  exact Binary.unpack_packedInfinity .positive

/-- The sum of a span and a positive float is a span, though it may overflow. -/
theorem IsSpan.add (span : IsSpan x) : IsSpan (x + y) := by
  rcases span with ⟨number, nonneg⟩ | infinite
  · have rounded := isRounded_add number (isFinite_of_value_pos positive)
    have sum_nonneg : 0 ≤ value x + value y := add_nonneg nonneg positive.le
    by_cases fits : (x + y).isFinite
    · exact .inl ⟨fits, (rounded.rounds fits).nonneg sum_nonneg⟩
    · right
      rw [rounded.infinite fits, Binary.infinite, if_pos sum_nonneg]
  · exact .inr (binary_add_of_infinite positive infinite)

/-- Of two spans, the greater one has no lesser sum. -/
theorem IsSpan.extent_add_mono (left : IsSpan x) (right : IsSpan x') (le : extent x ≤ extent x') :
    extent (x + y) ≤ extent (x' + y) := by
  by_cases fits : (x' + y).isFinite
  -- A sum that does not overflow has a finite first part, and so has each lesser one.
  · have number' : x'.isFinite := by
      rcases right with ⟨number', _⟩ | infinite
      · exact number'
      · exact absurd fits (not_finite_of_infinite (binary_add_of_infinite positive infinite))
    rw [extent_of_finite number'] at le
    obtain ⟨number, nonneg⟩ : x.isFinite ∧ 0 ≤ value x := by
      rcases left with finite_nonneg | infinite
      · exact finite_nonneg
      · rw [extent_of_infinite infinite] at le
        exact absurd le (not_le.2 (WithTop.coe_lt_top _))
    rw [extent_of_finite number, WithTop.coe_le_coe] at le
    have rounded := isRounded_add number (isFinite_of_value_pos positive)
    have rounded' := isRounded_add number' (isFinite_of_value_pos positive)
    have sums : value x + value y ≤ value x' + value y := add_le_add_left le _
    have sum_nonneg : 0 ≤ value x + value y := add_nonneg nonneg positive.le
    have within : (x + y).isFinite := by
      rw [rounded.isFinite_iff, abs_of_nonneg sum_nonneg]
      exact (sums.trans (le_abs_self _)).trans_lt (rounded'.isFinite_iff.1 fits)
    rw [extent_of_finite within, extent_of_finite fits, WithTop.coe_le_coe]
    exact (rounded.rounds within).mono (rounded'.rounds fits) sums
  · rw [extent, extent, if_neg fits]
    exact le_top

/-- A sum is not less than its first part. -/
theorem IsSpan.extent_le_add (span : IsSpan x) : extent x ≤ extent (x + y) := by
  by_cases fits : (x + y).isFinite
  · have number : x.isFinite := by
      rcases span with ⟨number, _⟩ | infinite
      · exact number
      · exact absurd fits (not_finite_of_infinite (binary_add_of_infinite positive infinite))
    have sum := (isRounded_add number (isFinite_of_value_pos positive)).rounds fits
    rw [extent_of_finite number, extent_of_finite fits, WithTop.coe_le_coe]
    exact (rounds_value number).mono sum (le_add_of_nonneg_right positive.le)
  · rw [extent, extent, if_neg fits]
    exact le_top

end Sums

end Emblem.Number
