/-
Module: Emblem.Proofs.PrintedNumbers
Purpose: Printed numbers read as exact decimals. A float with fixed places is read as a number of those
  places within half a last one of it; the fewest digits of a float are read as a number that is
  rounded to it.
Main exports: Number.exactly?, Number.exactly?_places, Number.exactly?_places_whole,
  Number.exactly?_plain
-/
import Emblem.Number.Literal
import Emblem.Proofs.DecimalText
import Emblem.Proofs.ShortestDecimal

namespace Emblem.Number

open Float.Model (Format)
open Float.Model.UnpackedFloat (Sign)

/-- The rational number that a literal denotes, if it denotes one. -/
def Literal.value? : Literal → Option ℚ
  | .decimal negative ds e => some ((if negative then -(ds : ℚ) else ds) * 10 ^ e)
  | _ => none

/-- The rational number that a text denotes, without rounding. -/
def exactly? (cs : List Char) : Option ℚ :=
  (Literal.ofString? (.ofList cs)).bind Literal.value?

/-! ### Numerals -/

section Numerals

open Literal (naturalOf)

theorem naturalOf_append (cs ds : List Char) :
    naturalOf (cs ++ ds) = 10 ^ ds.length * naturalOf cs + naturalOf ds := by
  have digitwise : ∀ es, naturalOf es = Nat.ofDigitChars 10 es 0 := fun _ => rfl
  rw [digitwise, digitwise, digitwise, Nat.ofDigitChars_append, Nat.ofDigitChars_eq_ofDigitChars_zero]

@[simp] theorem naturalOf_digits (n : Nat) : naturalOf (digits n) = n :=
  Nat.ofDigitChars_toDigits (by decide) (by decide)

@[simp] theorem naturalOf_zeros (n : Nat) : naturalOf (zeros n) = 0 := by
  induction n with
  | zero => rfl
  | succ n ih => exact ih

end Numerals

section Decimals

variable {whole fraction : List Char}

/-- After the sign, a decimal has no other form than digits with a point. -/
theorem ofString?_decimal (s : Sign) (wholePart : IsNumeral whole) (fractionPart : IsNumeral fraction) :
    Literal.ofString? (.ofList ((signText s).toList ++ (whole ++ '.' :: fraction))) =
      some (.decimal (s == .negative) (Literal.naturalOf (whole ++ fraction)) (-fraction.length)) := by
  have unsigned : Literal.splitSign (whole ++ '.' :: fraction) = (false, whole ++ '.' :: fraction) := by
    cases whole with
    | nil => exact absurd rfl wholePart.1
    | cons c rest =>
        have digit := wholePart.2 c List.mem_cons_self
        unfold Literal.splitSign
        split
        case h_1 same =>
            cases same
            cases digit
        case h_2 same =>
            cases same
            cases digit
        case h_3 => rfl
  have split : Literal.splitSign ((signText s).toList ++ (whole ++ '.' :: fraction)) =
      (s == .negative, whole ++ '.' :: fraction) := by
    cases s with
    | positive => exact unsigned
    | negative => rfl
  have point : '.' ∈ (whole ++ '.' :: fraction).map Char.toLower :=
    List.mem_map.2 ⟨'.', by simp, rfl⟩
  have noWord : ∀ word : String, '.' ∉ word.toList →
      (whole ++ '.' :: fraction).map Char.toLower ≠ word.toList := by
    intro word absent same
    rw [same] at point
    exact absent point
  have wholeDigits : (whole ++ '.' :: fraction).takeWhile Char.isDigit = whole := by
    rw [List.takeWhile_append_of_pos wholePart.2]
    simp
  have afterWhole : (whole ++ '.' :: fraction).dropWhile Char.isDigit = '.' :: fraction := by
    rw [List.dropWhile_append_of_pos wholePart.2]
    rfl
  have fractionDigits : fraction.takeWhile Char.isDigit = fraction :=
    List.takeWhile_eq_self_iff.2 fractionPart.2
  have afterFraction : fraction.dropWhile Char.isDigit = [] :=
    List.dropWhile_eq_nil_iff.2 fractionPart.2
  have some_digit : whole.isEmpty = false := List.isEmpty_eq_false_iff.2 wholePart.1
  unfold Literal.ofString?
  rw [String.toList_ofList, split]
  simp only
  rw [if_neg (noWord "nan" (by decide)),
    if_neg (not_or.2 ⟨noWord "inf" (by decide), noWord "infinity" (by decide)⟩)]
  unfold Literal.decimalOf?
  simp [wholeDigits, afterWhole, fractionDigits, afterFraction, some_digit, Literal.exponentOf?]

/-- Digits with a point are read as a quotient by a power of ten. -/
theorem exactly?_decimal (s : Sign) (wholePart : IsNumeral whole) (fractionPart : IsNumeral fraction) :
    exactly? ((signText s).toList ++ (whole ++ '.' :: fraction)) =
      some ((signed s (Literal.naturalOf (whole ++ fraction)) : ℚ) / 10 ^ fraction.length) := by
  rw [exactly?, ofString?_decimal s wholePart fractionPart]
  simp only [Option.bind_some, Literal.value?, zpow_neg, zpow_natCast, ← div_eq_mul_inv]
  cases s <;> simp [signed]

end Decimals

/-! ### Fixed places -/

theorem exactly?_pointed {k : Nat} (some_place : 0 < k) (s : Sign) (n : Nat) :
    exactly? ((signText s).toList ++ pointed k n) = some ((signed s n : ℚ) / 10 ^ k) := by
  have fits : (digits (n % Nat.pow 10 k)).length ≤ k :=
    (Nat.length_toDigits_le_iff (by decide) some_place).2 (Nat.mod_lt n (Nat.pow_pos (by decide)))
  have size : (zeros (k - (digits (n % Nat.pow 10 k)).length) ++ digits (n % Nat.pow 10 k)).length = k := by
    rw [List.length_append, zeros, List.length_replicate]
    exact Nat.sub_add_cancel fits
  have read : Literal.naturalOf (digits (n / Nat.pow 10 k) ++
      (zeros (k - (digits (n % Nat.pow 10 k)).length) ++ digits (n % Nat.pow 10 k))) = n := by
    rw [naturalOf_append, size, naturalOf_append, naturalOf_digits, naturalOf_digits, naturalOf_zeros,
      Nat.mul_zero, Nat.zero_add]
    exact Nat.div_add_mod n (10 ^ k)
  have shape : pointed k n = digits (n / Nat.pow 10 k) ++
      '.' :: (zeros (k - (digits (n % Nat.pow 10 k)).length) ++ digits (n % Nat.pow 10 k)) := by
    simp [pointed]
  rw [shape, exactly?_decimal s (isNumeral_digits _) ((isNumeral_digits _).zeros_append _), read, size]

/-- A rounded quotient is within a half of the exact one. -/
theorem abs_roundDiv_sub_le (tie : Tie) (n : Nat) {d : Nat} (positive : 0 < d) :
    |(roundDiv tie n d : ℚ) - n / d| ≤ 1 / 2 := by
  have divisor : (0 : ℚ) < d := by exact_mod_cast positive
  have quotient := natCast_div_eq n positive
  have low : 0 ≤ ((n % d : ℕ) : ℚ) / d := by positivity
  have high : ((n % d : ℕ) : ℚ) / d < 1 := by
    rw [div_lt_one divisor]
    exact_mod_cast Nat.mod_lt n positive
  -- The quotient goes down only up to a half, and up only from a half.
  have down : 2 * (n % d) ≤ d → ((n % d : ℕ) : ℚ) / d ≤ 1 / 2 := by
    intro less
    rw [div_le_iff₀ divisor]
    have cast : (2 : ℚ) * (n % d : ℕ) ≤ d := by exact_mod_cast less
    linarith
  have up : d ≤ 2 * (n % d) → 1 / 2 ≤ ((n % d : ℕ) : ℚ) / d := by
    intro more
    rw [le_div_iff₀ divisor]
    have cast : (d : ℚ) ≤ 2 * (n % d : ℕ) := by exact_mod_cast more
    linarith
  have reached : (roundDiv tie n d = n / d ∧ 2 * (n % d) ≤ d) ∨
      (roundDiv tie n d = n / d + 1 ∧ d ≤ 2 * (n % d)) := by
    rcases roundDiv_eq_or tie n d with same | next
    · refine .inl ⟨same, ?_⟩
      by_contra more
      unfold roundDiv at same
      rw [if_neg (by omega), if_pos (by omega)] at same
      omega
    · refine .inr ⟨next, ?_⟩
      by_contra less
      unfold roundDiv at next
      rw [if_pos (by omega)] at next
      omega
  rw [quotient, abs_le]
  rcases reached with ⟨same, less⟩ | ⟨next, more⟩
  · rw [same]
    have bound := down less
    constructor <;> linarith
  · rw [next]
    have bound := up more
    push_cast
    constructor <;> linarith

theorem abs_scaledToPlaces_sub_le (k m : Nat) (e : ℤ) :
    |(scaledToPlaces k m e : ℚ) - m * 2 ^ e * 10 ^ k| ≤ 1 / 2 := by
  have two : (2 : ℚ) ^ e * 2 ^ (-e).toNat = 2 ^ e.toNat := Interval.zpow_mul_toNat (by norm_num) e
  unfold scaledToPlaces
  simp only [Nat.pow_eq]
  split
  case isTrue whole =>
      have none : (-e).toNat = 0 := by omega
      rw [none, pow_zero, mul_one] at two
      push_cast
      rw [two, sub_self, abs_zero]
      norm_num
  case isFalse part =>
      have none : e.toNat = 0 := by omega
      rw [none, pow_zero] at two
      have near := abs_roundDiv_sub_le .toEven (m * 10 ^ k) (Nat.two_pow_pos (-e).toNat)
      have same : ((m * 10 ^ k : ℕ) : ℚ) / (2 ^ (-e).toNat : ℕ) = m * 2 ^ e * 10 ^ k := by
        rw [div_eq_iff (by positivity)]
        push_cast
        rw [mul_right_comm, mul_assoc (m : ℚ), two, mul_one]
      rw [same] at near
      exact near

/-- A float with fixed places is read as a number of those places, within half a last one of it. -/
theorem exactly?_places {k : Nat} (some_place : 0 < k) {x : Float} (finite : x.isFinite) :
    ∃ n : ℤ, exactly? (places k x).toList = some ((n : ℚ) / 10 ^ k) ∧ |(n : ℚ) - value x * 10 ^ k| ≤ 1 / 2 := by
  have number : (binary x).isFinite := finite
  unfold places value
  cases shape : binary x with
  | notANumber =>
      rw [shape] at number
      cases number
  | infinity s =>
      rw [shape] at number
      cases number
  | zero s =>
      refine ⟨signed s 0, ?_, ?_⟩
      · rw [Binary.places, String.toList_append, String.toList_ofList]
        exact exactly?_pointed some_place s 0
      · cases s <;> simp [signed, Binary.value]
  | finite s m e m_pos =>
      refine ⟨signed s (scaledToPlaces k m e), ?_, ?_⟩
      · rw [Binary.places, String.toList_append, String.toList_ofList]
        exact exactly?_pointed some_place s _
      · have near := abs_scaledToPlaces_sub_le k m e
        cases s with
        | positive => exact near
        | negative =>
            rw [← abs_neg]
            have turned : -(((signed .negative (scaledToPlaces k m e) : ℤ) : ℚ) -
                Binary.value (.finite .negative m e m_pos) * 10 ^ k) =
                scaledToPlaces k m e - m * 2 ^ e * 10 ^ k := by
              simp only [signed, Binary.value]
              push_cast
              ring
            rw [turned]
            exact near

theorem exists_int_of_isWhole {x : Float} (whole : (binary x).isWhole) : ∃ n : ℤ, value x = n := by
  unfold value
  cases shape : binary x with
  | notANumber => exact ⟨0, by simp [Binary.value]⟩
  | infinity s => exact ⟨0, by simp [Binary.value]⟩
  | zero s => exact ⟨0, by simp [Binary.value]⟩
  | finite s m e m_pos =>
      have two : (2 : ℚ) ^ e * 2 ^ (-e).toNat = 2 ^ e.toNat := Interval.zpow_mul_toNat (by norm_num) e
      rw [shape] at whole
      simp only [Binary.isWhole, Bool.or_eq_true, decide_eq_true_iff, beq_iff_eq] at whole
      rcases whole with nonneg | divides
      · have none : (-e).toNat = 0 := by omega
        rw [none, pow_zero, mul_one] at two
        refine ⟨signed s m * 2 ^ e.toNat, ?_⟩
        simp only [Binary.value, two]
        push_cast
        rfl
      · obtain ⟨q, rfl⟩ := Nat.dvd_of_mod_eq_zero divides
        refine ⟨signed s q * 2 ^ e.toNat, ?_⟩
        simp only [Binary.value, Nat.pow_eq]
        push_cast
        rw [← two]
        cases s <;> simp only [signed] <;> push_cast <;> ring

/-- A whole number is read as it is, however many places it has. -/
theorem exactly?_places_whole {k : Nat} (some_place : 0 < k) {x : Float} (finite : x.isFinite)
    (whole : (binary x).isWhole) : exactly? (places k x).toList = some (value x) := by
  obtain ⟨n, read, near⟩ := exactly?_places some_place finite
  obtain ⟨q, number⟩ := exists_int_of_isWhole whole
  have apart : |((n - q * 10 ^ k : ℤ) : ℚ)| < 1 := by
    rw [number] at near
    push_cast
    linarith
  have same : n = q * 10 ^ k := by
    have none : |n - q * 10 ^ k| < 1 := by exact_mod_cast apart
    exact sub_eq_zero.1 (Int.abs_lt_one_iff.1 none)
  rw [read, number, same]
  push_cast
  rw [mul_div_cancel_right₀ _ (by positivity)]

/-! ### The fewest digits -/

theorem exactly?_positional {d : Decimal} (below : d.exponent < 0) (wholeEnd : List Char) :
    exactly? (d.positional wholeEnd) = some d.value := by
  have numeral := isNumeral_digits d.significand
  have read := naturalOf_digits d.significand
  have power : (10 : ℚ) ^ d.exponent = ((10 : ℚ) ^ (-d.exponent).toNat)⁻¹ := by
    rw [← zpow_natCast, ← zpow_neg]
    congr 1
    omega
  have some_place : 0 < (-d.exponent).toNat := by omega
  unfold Decimal.positional Decimal.value
  rw [if_neg (not_le.2 below), power, ← div_eq_mul_inv]
  generalize digits d.significand = ds at *
  generalize (-d.exponent).toNat = k at *
  simp only
  split
  case isTrue inside =>
      have wholePart : IsNumeral (ds.take (ds.length - k)) := by
        refine numeral.of_subset ?_ (List.take_subset _ _)
        apply List.ne_nil_of_length_pos
        rw [List.length_take]
        omega
      have fractionPart : IsNumeral (ds.drop (ds.length - k)) := by
        refine numeral.of_subset ?_ (List.drop_subset _ _)
        apply List.ne_nil_of_length_pos
        rw [List.length_drop]
        omega
      have decimal := exactly?_decimal .positive wholePart fractionPart
      have size : (ds.drop (ds.length - k)).length = k := by
        rw [List.length_drop]
        omega
      rw [List.take_append_drop, read, size] at decimal
      exact decimal
  case isFalse outside =>
      have wholePart : IsNumeral ['0'] := ⟨by simp, by simp⟩
      have decimal := exactly?_decimal .positive wholePart (numeral.zeros_append (k - ds.length))
      have size : (zeros (k - ds.length) ++ ds).length = k := by
        simp only [zeros, List.length_append, List.length_replicate]
        omega
      have zero : Literal.naturalOf ['0'] = 0 := rfl
      rw [naturalOf_append, naturalOf_append, zero, naturalOf_zeros, read, size] at decimal
      simpa [signText, signed] using decimal

/-- The fewest digits of a positive number that is not whole are read as one that is rounded to it. -/
theorem exactly?_plain {x : Float} (positive : 0 < value x) (fraction : (binary x).isWhole = false) :
    ∃ q, exactly? (plain x).toList = some q ∧ Rounds q (value x) := by
  obtain ⟨m, e, m_pos, shape⟩ := Binary.exists_positive positive
  obtain ⟨⟨fits, least, full⟩, greatest⟩ := Binary.bounds_of_unpack shape
  have number : value x = m * 2 ^ e := by
    rw [value, shape]
    rfl
  rw [shape] at fraction
  simp only [Binary.isWhole, Bool.or_eq_false_iff, decide_eq_false_iff_not, not_le,
    beq_eq_false_iff_ne] at fraction
  have below : (shortest Format.binary64 Layout.plain.tie m e).exponent < 0 :=
    shortest_exponent_neg fraction.1 fraction.2 (significand_lt shape)
  refine ⟨(shortest Format.binary64 Layout.plain.tie m e).value, ?_, ?_⟩
  · have digits := exactly?_positional below Layout.plain.wholeEnd
    rw [plain, shape]
    simpa [Layout.write, signText, Layout.spell, Layout.plain] using digits
  · rw [number]
    exact rounds_shortest m_pos fits least greatest full _

/-! ### How near rounded numbers are -/

/-- A number below a power of two lies within half a last place of what it is rounded to. -/
theorem Rounds.abs_sub_le {x y : ℚ} {s : ℤ} (rounds : Rounds x y) (least : -1074 ≤ s)
    (small : |x| < 2 ^ (s + 53)) : |x - y| ≤ 2 ^ s / 2 := by
  obtain ⟨t, q, place, nearest, rfl⟩ := rounds
  have lower : t ≤ s := by
    rcases place.full with rfl | many
    · exact least
    · have less : t + 52 < s + 53 := (zpow_lt_zpow_iff_right₀ (by norm_num)).1 (many.trans_lt small)
      omega
  calc
    |x - q * 2 ^ t| ≤ 1 / 2 * 2 ^ t := nearest.abs_sub_le
    _ ≤ 1 / 2 * 2 ^ s := mul_le_mul_of_nonneg_left (two_zpow_le lower) (by norm_num)
    _ = 2 ^ s / 2 := by ring

/-- What is rounded to a number below a power of two is below it. -/
theorem Rounds.lt_two_zpow {x y : ℚ} {s : ℤ} (rounds : Rounds x y) (least : -1022 ≤ s)
    (small : y < 2 ^ s) : x < 2 ^ s := by
  by_contra beyond
  have digits : (2 : ℚ) ^ s = (2 ^ 52 : ℤ) * 2 ^ (s - 52) := by
    rw [zpow_sub₀ (by norm_num)]
    push_cast
    ring
  have power : Rounds ((2 : ℚ) ^ s) (2 ^ s) :=
    Rounds.of_fits (by omega) digits (by norm_num) (.inr (by norm_num))
  exact absurd (power.mono rounds (not_lt.1 beyond)) (not_le.2 small)

end Emblem.Number
