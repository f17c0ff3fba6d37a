/-
Module: Emblem.Proofs.SpelledFloats
Purpose: Floats as documents spell them, and what is made of their texts: the digits and the power of ten
  that a document shows are those of the shortest decimal, and a reader scales the one by the other.
Main exports: Decimal.shown, Spells, exists_spells, reread, SpelledAs, reads_json
-/
import Emblem.Proofs.NumeralTexts
import Emblem.Proofs.PrintedNumbers

namespace Emblem.Number

open Float.Model (Format)
open Float.Model.UnpackedFloat (Sign)
open Json (ExponentText NumeralText afterPoint floatOfParts floatOfNat octet powerOfTen)
open Literal (naturalOf)

/-! ### Digits as documents show them -/

/-- The significand and the power of ten that a document shows: a whole number with all places has a zero
after its point, which counts as one more digit. -/
def Decimal.shown (d : Decimal) : Decimal :=
  if 0 ≤ d.exponent ∧ d.leading ≤ 15 then ⟨d.significand * Nat.pow 10 (d.exponent.toNat + 1), -1⟩ else d

theorem digits_length_le {n k : Nat} (positive : 0 < k) (below : n < 10 ^ k) : (digits n).length ≤ k :=
  (Nat.length_toDigits_le_iff (by decide) positive).2 below

theorem lt_ten_pow_length (n : Nat) : n < 10 ^ (digits n).length :=
  (Nat.length_toDigits_le_iff (by decide) Nat.length_toDigits_pos).1 le_rfl

/-- What is shown fits the significand of a reader. -/
theorem shown_significand_le {d : Decimal} (few : d.significand < 2 ^ 59) :
    d.shown.significand ≤ Json.significandLimit := by
  have limit : Json.significandLimit = 2 ^ 64 - 1 := rfl
  rw [limit]
  unfold Decimal.shown
  split
  case isTrue small =>
      have size := lt_ten_pow_length d.significand
      have places : (digits d.significand).length + (d.exponent.toNat + 1) ≤ 17 := by
        have leading : d.leading = d.exponent + (digits d.significand).length - 1 := rfl
        omega
      have bound : d.significand * 10 ^ (d.exponent.toNat + 1) ≤ 10 ^ 17 := calc
        d.significand * 10 ^ (d.exponent.toNat + 1) ≤
            10 ^ (digits d.significand).length * 10 ^ (d.exponent.toNat + 1) :=
          Nat.mul_le_mul_right _ size.le
        _ = 10 ^ ((digits d.significand).length + (d.exponent.toNat + 1)) := (Nat.pow_add ..).symm
        _ ≤ 10 ^ 17 := Nat.pow_le_pow_right (by decide) places
      exact bound.trans (by decide)
  case isFalse => exact (Nat.le_sub_one_of_lt few).trans (by decide)

theorem natAbs_leading_le {d : Decimal} (few : d.significand < 2 ^ 59) (low : -327 ≤ d.exponent)
    (high : d.exponent ≤ 308) : d.leading.natAbs ≤ Json.exponentLimit := by
  have length : (digits d.significand).length ≤ 18 := digits_length_le (by decide) (few.trans (by decide))
  have limit : Json.exponentLimit = 2147483647 := rfl
  have leading : d.leading = d.exponent + (digits d.significand).length - 1 := rfl
  omega

/-- A numeral with a mark that it is a float spells a decimal. -/
structure Spells (n : NumeralText) (d : Decimal) : Prop where
  chars : Layout.json.spell d = n.chars
  significand : n.significand = d.shown.significand
  power : n.power = d.shown.exponent
  marked : n.fraction ≠ [] ∨ n.exponent ≠ none
  exponent : ∀ t ∈ n.exponent, naturalOf t.digits = d.leading.natAbs

section Spelling

variable {d : Decimal}

theorem afterPoint_of_ne_nil {cs : List Char} (some_digit : cs ≠ []) : afterPoint cs = '.' :: cs :=
  if_neg some_digit

theorem head?_append_ne {cs ds : List Char} (some_digit : cs ≠ []) (first : cs.head? ≠ some '0') :
    (cs ++ ds).head? ≠ some '0' := by
  rwa [List.head?_append_of_ne_nil _ some_digit]

/-- All places of a whole number, with a zero after the point. -/
theorem exists_spells_whole (positive : 0 < d.significand) (whole : 0 ≤ d.exponent) (few : d.leading ≤ 15) :
    ∃ n, Spells n d := by
  have numeral := isNumeral_digits d.significand
  have first := Json.head_digits_ne positive
  have shown : d.shown = ⟨d.significand * Nat.pow 10 (d.exponent.toNat + 1), -1⟩ := if_pos ⟨whole, few⟩
  have length : 0 < (digits d.significand).length := List.length_pos_of_ne_nil numeral.1
  have range : -5 ≤ d.leading := by
    unfold Decimal.leading
    omega
  refine ⟨⟨digits d.significand ++ zeros d.exponent.toNat, ['0'], none, ?_, .inr ?_, by simp⟩,
    ?_, ?_, ?_, .inl (by simp), fun t member => by cases member⟩
  · refine ⟨List.append_ne_nil_of_left_ne_nil numeral.1 _, ?_⟩
    intro c member
    rcases List.mem_append.1 member with digit | zero
    · exact numeral.2 c digit
    · rw [(List.mem_replicate.1 zero).2]
      rfl
  · exact head?_append_ne numeral.1 first
  · have spelled : Layout.json.spell d = d.positional ['.', '0'] := if_pos ⟨range, few⟩
    have places : d.positional ['.', '0'] = digits d.significand ++ zeros d.exponent.toNat ++ ['.', '0'] :=
      if_pos whole
    rw [spelled, places]
    rfl
  · have value : naturalOf (digits d.significand ++ zeros d.exponent.toNat ++ ['0']) =
        d.significand * 10 ^ (d.exponent.toNat + 1) := by
      rw [naturalOf_append, naturalOf_append, naturalOf_digits, naturalOf_zeros]
      have size : (zeros d.exponent.toNat).length = d.exponent.toNat := List.length_replicate
      have zero : naturalOf ['0'] = 0 := rfl
      rw [size, zero, pow_succ]
      simp only [List.length_singleton, pow_one, add_zero]
      ring
    rw [shown]
    exact value
  · rw [shown]
    rfl

/-- A fraction, with all places. -/
theorem exists_spells_fraction (positive : 0 < d.significand) (below : d.exponent < 0)
    (range : -5 ≤ d.leading ∧ d.leading ≤ 15) : ∃ n, Spells n d := by
  have numeral := isNumeral_digits d.significand
  have first := Json.head_digits_ne positive
  have shown : d.shown = d := if_neg fun both => not_le.2 below both.1
  have spelled : Layout.json.spell d = d.positional ['.', '0'] := if_pos range
  have read := naturalOf_digits d.significand
  have exponent : d.exponent = -((-d.exponent).toNat : ℤ) := by omega
  have some_place : 0 < (-d.exponent).toNat := by omega
  unfold Decimal.positional at spelled
  rw [if_neg (not_le.2 below)] at spelled
  generalize digits d.significand = ds at *
  generalize (-d.exponent).toNat = k at *
  by_cases inside : k < ds.length
  · have size : (ds.drop (ds.length - k)).length = k := by
      rw [List.length_drop]
      omega
    have some_digit : ds.drop (ds.length - k) ≠ [] := List.ne_nil_of_length_pos (by omega)
    refine ⟨⟨ds.take (ds.length - k), ds.drop (ds.length - k), none, ?_, .inr ?_, ?_⟩, ?_, ?_, ?_, .inl some_digit,
      fun t member => by cases member⟩
    · refine numeral.of_subset (List.ne_nil_of_length_pos ?_) (List.take_subset _ _)
      rw [List.length_take]
      omega
    · rwa [List.head?_take, if_neg (by omega)]
    · exact fun c member => numeral.2 c (List.drop_subset _ _ member)
    · rw [spelled, NumeralText.chars, NumeralText.exponentChars, afterPoint_of_ne_nil some_digit]
      simp [inside]
    · rw [shown, NumeralText.significand, List.take_append_drop, read]
    · rw [shown, NumeralText.power, size, exponent, zero_sub]
  · have padded := numeral.zeros_append (k - ds.length)
    have size : (zeros (k - ds.length) ++ ds).length = k := by
      simp only [zeros, List.length_append, List.length_replicate]
      omega
    refine ⟨⟨['0'], zeros (k - ds.length) ++ ds, none, ⟨by simp, by simp⟩, .inl rfl, padded.2⟩, ?_, ?_, ?_,
      .inl padded.1, fun t member => by cases member⟩
    · rw [spelled, NumeralText.chars, NumeralText.exponentChars, afterPoint_of_ne_nil padded.1]
      simp [inside]
    · have zero : naturalOf ['0'] = 0 := rfl
      rw [shown, NumeralText.significand, naturalOf_append, naturalOf_append, zero, naturalOf_zeros, read]
      simp
    · rw [shown, NumeralText.power, size, exponent, zero_sub]

/-- A digit, the others after a point, and a power of ten. -/
theorem exists_spells_scientific (positive : 0 < d.significand)
    (outside : ¬(-5 ≤ d.leading ∧ d.leading ≤ 15)) : ∃ n, Spells n d := by
  have numeral := isNumeral_digits d.significand
  have first := Json.head_digits_ne positive
  have spelled : Layout.json.spell d = d.scientific := if_neg outside
  have read := naturalOf_digits d.significand
  have leading : d.leading = d.exponent + (digits d.significand).length - 1 := rfl
  have power : d.leading = if d.leading < 0 then -(d.leading.natAbs : ℤ) else d.leading.natAbs := by
    split <;> omega
  unfold Decimal.scientific at spelled
  generalize digits d.significand = ds at *
  cases ds with
  | nil => exact absurd rfl numeral.1
  | cons c cs =>
      rw [List.length_cons] at leading
      have shown : d.shown = d := if_neg fun both => outside ⟨by omega, both.2⟩
      refine ⟨⟨[c], cs, some ⟨decide (d.leading < 0), digits d.leading.natAbs, isNumeral_digits _⟩,
        ⟨by simp, fun e member => numeral.2 e ?_⟩, .inr first,
        fun e member => numeral.2 e (List.mem_cons_of_mem c member)⟩, ?_, ?_, ?_, .inr (by simp), ?_⟩
      · rw [List.mem_singleton.1 member]
        exact List.mem_cons_self
      · rw [spelled]
        cases cs <;>
          simp [NumeralText.chars, NumeralText.exponentChars, ExponentText.chars, afterPoint]
      · rw [shown, NumeralText.significand, ← read]
        rfl
      · rw [shown]
        simp only [NumeralText.power, ExponentText.power, naturalOf_digits, decide_eq_true_eq]
        rw [← power]
        omega
      · rintro t ⟨⟩
        exact naturalOf_digits _

theorem exists_spells (positive : 0 < d.significand) : ∃ n, Spells n d := by
  by_cases range : -5 ≤ d.leading ∧ d.leading ≤ 15
  · rcases le_or_gt 0 d.exponent with whole | below
    · exact exists_spells_whole positive whole range.2
    · exact exists_spells_fraction positive below range
  · exact exists_spells_scientific positive range

end Spelling

/-! ### Reading back -/

/-- The float that is read from the text of a float in a document. -/
def reread (x : Float) : Option Float :=
  match binary x with
  | .zero _ => some x
  | .finite s m e _ =>
    let d := (shortest Format.binary64 .toEven m e).shown
    floatOfParts (s == .negative) d.significand d.exponent
  | _ => none

theorem binary_injective : Function.Injective binary := by
  intro x y same
  have bits : x.toBits.toBitVec = y.toBits.toBitVec :=
    (Float.Model.UnpackedFloat.unpack_inj_of_valid x.toModel.valid y.toModel.valid (by decide)).1 same
  exact Float.toBits_inj.1 (UInt64.toBitVec_inj.1 bits)

/-- A zero is read back with its sign. -/
theorem floatOfParts_zero {x : Float} {s : Sign} (zero : binary x = .zero s) :
    floatOfParts (s == .negative) 0 (-1) = some x := by
  cases s with
  | positive =>
      have same : x = 0.0 := binary_injective (zero.trans (by rfl))
      rw [same]
      decide +kernel
  | negative =>
      have same : x = -0.0 := binary_injective (zero.trans (by rfl))
      rw [same]
      decide +kernel

/-- A text with a sign is read as the float of its digits. -/
theorem reads_spelled {x : Float} {s : Sign} {n : NumeralText} (marked : n.fraction ≠ [] ∨ n.exponent ≠ none)
    (fits : n.significand ≤ Json.significandLimit)
    (few : ∀ t ∈ n.exponent, naturalOf t.digits ≤ Json.exponentLimit)
    (number : floatOfParts (s == .negative) n.significand n.power = some x) :
    Json.readFloat.Reads (((signText s).toList ++ n.chars).map octet) x [] := by
  cases s with
  | positive =>
      have reads := NumeralText.reads_float marked fits few number
      obtain ⟨c, cs, chars, digit⟩ := n.exists_chars
      have unsigned : (signText .positive).toList ++ n.chars = n.chars := by simp [signText]
      rw [unsigned]
      rw [chars] at reads ⊢
      exact Json.reads_readNumberAs digit reads (.pure _ _)
  | negative =>
      have reads := NumeralText.reads_float marked fits few number
      have signed : (signText .negative).toList ++ n.chars = '-' :: n.chars := by simp [signText]
      rw [signed]
      exact Json.reads_readNumberAs_minus reads (.pure _ _)

/-- The text of a float that is read back: a sign and a numeral, which are made into that float. -/
structure SpelledAs (x y : Float) (s : Sign) (n : NumeralText) : Prop where
  text : json x = signText s ++ String.ofList n.chars
  marked : n.fraction ≠ [] ∨ n.exponent ≠ none
  fits : n.significand ≤ Json.significandLimit
  few : ∀ t ∈ n.exponent, naturalOf t.digits ≤ Json.exponentLimit
  number : floatOfParts (s == .negative) n.significand n.power = some y

theorem exists_spelledAs {x y : Float} (read : reread x = some y) : ∃ s n, SpelledAs x y s n := by
  unfold reread at read
  split at read
  case h_1 s shape =>
      cases read
      refine ⟨s, ⟨['0'], ['0'], none, ⟨by simp, by simp⟩, .inl rfl, by simp⟩, ?_, .inl (by simp), by decide, ?_,
        floatOfParts_zero shape⟩
      · rw [json, shape]
        rfl
      · intro t member
        cases member
  case h_2 s m e m_pos shape =>
      obtain ⟨⟨fits, least, full⟩, greatest⟩ := Binary.bounds_of_unpack shape
      have positive := shortest_significand_pos .toEven m_pos fits least greatest
      have few := shortest_significand_lt .toEven m_pos fits least greatest
      have range := shortest_exponent_bounds .toEven m_pos fits least greatest
      obtain ⟨n, spells⟩ := exists_spells positive
      dsimp only at read
      rw [← spells.significand, ← spells.power] at read
      refine ⟨s, n, ?_, spells.marked, ?_, ?_, read⟩
      · rw [json, shape, ← spells.chars]
        rfl
      · rw [spells.significand]
        exact shown_significand_le few
      · intro t member
        rw [spells.exponent t member]
        exact natAbs_leading_le few range.1 range.2
  case h_3 => cases read

theorem reads_json {x y : Float} (read : reread x = some y) :
    Json.readFloat.Reads ((json x).toList.map octet) y [] := by
  obtain ⟨s, n, spelled⟩ := exists_spelledAs read
  rw [spelled.text, String.toList_append, String.toList_ofList]
  exact reads_spelled spelled.marked spelled.fits spelled.few spelled.number

/-- The text is ASCII, and it begins with a minus sign or a digit. -/
theorem exists_head_json {x y : Float} (read : reread x = some y) :
    (∀ c ∈ (json x).toList, c.toNat < 128) ∧
      ∃ c cs, (json x).toList = c :: cs ∧ (c = '-' ∨ c.isDigit) := by
  obtain ⟨s, n, spelled⟩ := exists_spelledAs read
  have shape : (json x).toList = (signText s).toList ++ n.chars := by
    rw [spelled.text, String.toList_append, String.toList_ofList]
  rw [shape]
  constructor
  · intro c member
    rcases List.mem_append.1 member with sign | inside
    · cases s with
      | positive => cases sign
      | negative =>
          cases List.mem_singleton.1 sign
          decide
    · exact n.ascii c inside
  · obtain ⟨c, cs, chars, digit⟩ := n.exists_chars
    rw [chars]
    cases s with
    | positive => exact ⟨c, cs, rfl, .inr digit⟩
    | negative => exact ⟨'-', c :: cs, rfl, .inl rfl⟩

end Emblem.Number
