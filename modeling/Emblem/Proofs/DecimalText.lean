/-
Module: Emblem.Proofs.DecimalText
Purpose: Which numbers are written as digits, a point and digits. With a fixed number of places it is
  every finite value without a minus sign. With the fewest digits it is every value that is not
  whole: between the reals that round to such a value there is no whole number, so the search for
  the shortest decimal passes all powers of ten down to the units.
Main exports: Number.IsNumeral, Number.IsDecimal, Number.Binary.isDecimal_places_iff,
  Number.shortest_exponent_neg, Number.isDecimal_plain
-/
import Emblem.Number.Layout
import Emblem.Proofs.ExactValue
import Mathlib.Tactic.Ring

namespace Emblem.Number

open Float.Model (Format)
open Float.Model.UnpackedFloat (Sign unpack)

/-- One digit or more. -/
def IsNumeral (cs : List Char) : Prop :=
  cs ≠ [] ∧ ∀ c ∈ cs, c.isDigit

/-- A number without a sign that has so many places after its point. -/
def IsDecimal (places : Nat) (cs : List Char) : Prop :=
  ∃ whole fraction, cs = whole ++ '.' :: fraction ∧ IsNumeral whole ∧ IsNumeral fraction ∧
    fraction.length = places

theorem isNumeral_digits (n : Nat) : IsNumeral (digits n) :=
  ⟨Nat.toDigits_ne_nil, fun _ member => Nat.isDigit_of_mem_toDigits (by decide) (by decide) member⟩

theorem IsNumeral.of_subset {cs ds : List Char} (numeral : IsNumeral ds) (some_digit : cs ≠ [])
    (subset : cs ⊆ ds) : IsNumeral cs :=
  ⟨some_digit, fun c member => numeral.2 c (subset member)⟩

/-- Leading zeros make no difference. -/
theorem IsNumeral.zeros_append {cs : List Char} (numeral : IsNumeral cs) (n : Nat) :
    IsNumeral (zeros n ++ cs) := by
  refine ⟨List.append_ne_nil_of_right_ne_nil _ numeral.1, ?_⟩
  intro c member
  rcases List.mem_append.1 member with zero | digit
  · rw [(List.mem_replicate.1 zero).2]
    rfl
  · exact numeral.2 c digit

/-- What begins with something other than a digit is no decimal. -/
theorem not_isDecimal {places : Nat} {cs : List Char} {c : Char} (first : cs.head? = some c)
    (other : c.isDigit = false) : ¬IsDecimal places cs := by
  rintro ⟨whole, fraction, rfl, numeral, _, _⟩
  cases whole with
  | nil => exact numeral.1 rfl
  | cons d rest =>
      cases first
      rw [numeral.2 c List.mem_cons_self] at other
      cases other

theorem IsDecimal.isDigit_or_point {places : Nat} {cs : List Char} {c : Char}
    (decimal : IsDecimal places cs) (member : c ∈ cs) : c.isDigit ∨ c = '.' := by
  obtain ⟨whole, fraction, rfl, wholePart, fractionPart, _⟩ := decimal
  simp only [List.mem_append, List.mem_cons] at member
  rcases member with inWhole | point | inFraction
  · exact .inl (wholePart.2 c inWhole)
  · exact .inr point
  · exact .inl (fractionPart.2 c inFraction)

/-! ### Fixed places -/

theorem isDecimal_pointed {k : Nat} (some_place : 0 < k) (n : Nat) : IsDecimal k (pointed k n) := by
  have fits : (digits (n % Nat.pow 10 k)).length ≤ k :=
    (Nat.length_toDigits_le_iff (by decide) some_place).2 (Nat.mod_lt n (Nat.pow_pos (by decide)))
  have numeral := isNumeral_digits (n % Nat.pow 10 k)
  unfold pointed
  generalize digits (n % Nat.pow 10 k) = fraction at fits numeral
  refine ⟨digits (n / Nat.pow 10 k), zeros (k - fraction.length) ++ fraction, ?_,
    isNumeral_digits _, numeral.zeros_append _, ?_⟩
  · simp
  · simp [zeros, fits]

/-- With a sign before it, a number with places is a decimal just if the sign is not written. -/
theorem isDecimal_signed_iff {k : Nat} (some_place : 0 < k) (s : Sign) (n : Nat) :
    IsDecimal k (signText s ++ .ofList (pointed k n)).toList ↔ s = .positive := by
  cases s with
  | positive =>
      refine iff_of_true ?_ rfl
      simpa [signText] using isDecimal_pointed some_place n
  | negative =>
      refine iff_of_false ?_ (by simp)
      exact not_isDecimal (c := '-') (by simp [signText]) rfl

/-- Of all values, those that are finite and have no minus sign are written as decimals. -/
theorem Binary.isDecimal_places_iff {k : Nat} (some_place : 0 < k) {b : Binary} :
    IsDecimal k (b.places k).toList ↔ b.isFinite ∧ b.sign? = some .positive := by
  cases b with
  | notANumber =>
      refine iff_of_false ?_ (by simp [sign?])
      exact not_isDecimal (c := 'N') (by simp [places]) rfl
  | infinity s =>
      refine iff_of_false ?_ (fun written => by cases written.1)
      cases s with
      | positive => exact not_isDecimal (c := 'i') (by simp [places, signText]) rfl
      | negative => exact not_isDecimal (c := '-') (by simp [places, signText]) rfl
  | zero s =>
      have finite : (Float.Model.UnpackedFloat.zero s).isFinite := rfl
      simpa [places, sign?, finite] using isDecimal_signed_iff some_place s 0
  | finite s m e m_pos =>
      have finite : (Float.Model.UnpackedFloat.finite s m e m_pos).isFinite := rfl
      simpa [places, sign?, finite] using isDecimal_signed_iff some_place s (scaledToPlaces k m e)

/-! ### The fewest digits -/

/-- With a negative exponent, all places are digits with a point among them. -/
theorem Decimal.isDecimal_positional {d : Decimal} (below : d.exponent < 0) (wholeEnd : List Char) :
    ∃ k, IsDecimal k (d.positional wholeEnd) := by
  have numeral := isNumeral_digits d.significand
  unfold positional
  rw [if_neg (not_le.2 below)]
  generalize digits d.significand = ds at *
  simp only
  split
  case isTrue inside =>
    refine ⟨_, _, _, rfl, ?_, ?_, rfl⟩
    · refine numeral.of_subset ?_ (List.take_subset _ _)
      apply List.ne_nil_of_length_pos
      rw [List.length_take]
      omega
    · refine numeral.of_subset ?_ (List.drop_subset _ _)
      apply List.ne_nil_of_length_pos
      rw [List.length_drop]
      omega
  case isFalse =>
    exact ⟨_, ['0'], _, rfl, ⟨by simp, by simp⟩, numeral.zeros_append _, rfl⟩

section Fraction

variable {m : Nat} {e : Int}

/-- No whole multiple of a power of ten rounds to a value that is not whole: the bounds are nearer
to the value than any whole number is. -/
theorem Interval.holds_around_eq_false (format : Format) (below : e < 0)
    (fraction : m % Nat.pow 2 (-e).toNat ≠ 0) {k : Int} (whole : 0 ≤ k) (c : Nat) :
    (Interval.around format m e).holds k c = false := by
  rw [Bool.eq_false_iff]
  intro inside
  apply fraction
  have ratio : (Interval.around format m e).ratio k =
      (1, Nat.pow 2 (-e).toNat * 4 * Nat.pow 10 k.toNat) := by
    have up : (e - 2).toNat = 0 := by omega
    have scale : (-(e - 2)).toNat = (-e).toNat + 2 := by omega
    have down : (-k).toNat = 0 := by omega
    simp only [ratio, around, up, scale, down, Nat.pow_eq, pow_zero, pow_add, one_mul]
    rfl
  have regroup : c * (Nat.pow 2 (-e).toNat * 4 * Nat.pow 10 k.toNat) =
      4 * (c * Nat.pow 10 k.toNat * Nat.pow 2 (-e).toNat) := by ring
  have bounds : 4 * m - 2 ≤ 4 * (c * Nat.pow 10 k.toNat * Nat.pow 2 (-e).toNat) ∧
      4 * (c * Nat.pow 10 k.toNat * Nat.pow 2 (-e).toNat) ≤ 4 * m + 2 := by
    unfold holds at inside
    rw [ratio] at inside
    simp only [around, mul_one, regroup] at inside
    split at inside
    · have wide := of_decide_eq_true inside
      split at wide <;> omega
    · have wide := of_decide_eq_true inside
      split at wide <;> omega
  have same : c * Nat.pow 10 k.toNat * Nat.pow 2 (-e).toNat = m := by omega
  rw [← same]
  exact Nat.mul_mod_left _ _

theorem Interval.nearestInside?_eq_none {i : Interval} {tie : Tie} {k : Int}
    (outside : ∀ c, i.holds k c = false) : i.nearestInside? tie k = none := by
  simp [nearestInside?, outside]

/-- A search that finds nothing down to the units goes on below them, if it has enough rounds. -/
theorem Interval.search_exponent_neg {i : Interval} {tie : Tie}
    (outside : ∀ k, 0 ≤ k → i.nearestInside? tie k = none) {rounds : Nat} {k : Int}
    (enough : k < rounds) : (i.search tie rounds k).exponent < 0 := by
  induction rounds generalizing k with
  | zero => exact enough
  | succ rounds ih =>
      unfold search
      cases found : i.nearestInside? tie k with
      | none => exact ih (by omega)
      | some c =>
          by_contra above
          rw [outside k (not_lt.1 above)] at found
          cases found

theorem shortest_exponent_neg {format : Format} {tie : Tie} (below : e < 0)
    (fraction : m % Nat.pow 2 (-e).toNat ≠ 0) (bounded : m < Nat.pow 2 53) :
    (shortest format tie m e).exponent < 0 := by
  refine Interval.search_exponent_neg ?_ ?_
  · intro k whole
    exact Interval.nearestInside?_eq_none (Interval.holds_around_eq_false format below fraction whole)
  · have high : (4 * m + 2).log2 < 56 := by
      rw [Nat.log2_lt (by omega)]
      have wide : Nat.pow 2 53 = 9007199254740992 := rfl
      omega
    simp only [Interval.topPower, Interval.around]
    omega

end Fraction

/-- The significand of a float has at most 53 binary digits. -/
theorem significand_lt {x : Float} {s : Sign} {m : Nat} {e : Int} {m_pos : 0 < m}
    (shape : binary x = .finite s m e m_pos) : m < Nat.pow 2 53 := by
  rcases Binary.exists_mantissa_of_unpack shape with ⟨same, _⟩ | ⟨same, _⟩
  · rw [same]
    exact (BitVec.isLt _).trans (by decide)
  · rw [same]
    exact BitVec.isLt _

/-- A positive float that is not whole is written as a decimal. -/
theorem isDecimal_plain {x : Float} (positive : 0 < value x) (fraction : (binary x).isWhole = false) :
    ∃ k, IsDecimal k (plain x).toList := by
  obtain ⟨m, e, m_pos, shape⟩ := Binary.exists_positive positive
  rw [shape] at fraction
  simp only [Binary.isWhole, Bool.or_eq_false_iff, decide_eq_false_iff_not, not_le,
    beq_eq_false_iff_ne] at fraction
  have below : (shortest Format.binary64 Layout.plain.tie m e).exponent < 0 :=
    shortest_exponent_neg fraction.1 fraction.2 (significand_lt shape)
  obtain ⟨k, decimal⟩ := Decimal.isDecimal_positional below Layout.plain.wholeEnd
  refine ⟨k, ?_⟩
  rw [plain, shape]
  simpa [Layout.write, signText, Layout.spell, Layout.plain] using decimal

end Emblem.Number
