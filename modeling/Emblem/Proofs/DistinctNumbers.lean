/-
Module: Emblem.Proofs.DistinctNumbers
Purpose: Distinct floats are written as distinct texts in drawings. The sign is what stands in front, and
  the digits denote a number that is rounded to the float and to no other.
Main exports: Number.exactly?_numeral, Number.exactly?_unended, Number.exists_spelling,
  Number.plain_injective
-/
import Emblem.Proofs.AttributeValues
import Emblem.Proofs.PrintedNumbers
import Emblem.Proofs.Rereading

namespace Emblem.Number

open Float.Model (Format)
open Float.Model.UnpackedFloat (Sign)

/-! ### Whole numbers -/

section Whole

variable {cs : List Char}

/-- No digit begins a word that stands for a number. -/
theorem toLower_of_isDigit {c : Char} (digit : c.isDigit) : c.toLower ≠ 'n' ∧ c.toLower ≠ 'i' := by
  have small : c.toNat < 58 := Nat.lt_succ_of_le (Json.bounds_of_isDigit digit).2
  have table : ∀ k < 58, (Char.ofNat k).toLower ≠ 'n' ∧ (Char.ofNat k).toLower ≠ 'i' := by decide
  have here := table c.toNat small
  rw [Char.ofNat_toNat] at here
  exact here

theorem splitSign_of_isDigit {c : Char} (digit : c.isDigit) (rest : List Char) :
    Literal.splitSign (c :: rest) = (false, c :: rest) := by
  unfold Literal.splitSign
  split
  case h_1 same =>
      cases same
      cases digit
  case h_2 same =>
      cases same
      cases digit
  case h_3 => rfl

/-- Digits alone are read as the natural that they denote. -/
theorem exactly?_numeral (numeral : IsNumeral cs) :
    exactly? cs = some (Literal.naturalOf cs : ℚ) := by
  obtain ⟨some_digit, digits⟩ := numeral
  cases cs with
  | nil => exact absurd rfl some_digit
  | cons c rest =>
      have digit := digits c List.mem_cons_self
      obtain ⟨noN, noI⟩ := toLower_of_isDigit digit
      have noWord : ∀ (word : String) (d : Char), word.toList.head? = some d → c.toLower ≠ d →
          (c :: rest).map Char.toLower ≠ word.toList := by
        intro word d first other same
        rw [← same] at first
        exact other (Option.some.inj first)
      have all : (c :: rest).takeWhile Char.isDigit = c :: rest := List.takeWhile_eq_self_iff.2 digits
      have none : (c :: rest).dropWhile Char.isDigit = [] := List.dropWhile_eq_nil_iff.2 digits
      have read : Literal.ofString? (.ofList (c :: rest)) =
          some (.decimal false (Literal.naturalOf (c :: rest)) 0) := by
        unfold Literal.ofString?
        rw [String.toList_ofList, splitSign_of_isDigit digit]
        simp only
        rw [if_neg (noWord "nan" 'n' (by decide) noN),
          if_neg (not_or.2 ⟨noWord "inf" 'i' (by decide) noI, noWord "infinity" 'i' (by decide) noI⟩)]
        unfold Literal.decimalOf?
        simp only [all, none]
        simp [Literal.exponentOf?]
      rw [exactly?, read]
      simp [Literal.value?]

end Whole

/-- All places of a decimal, with nothing after whole numbers, are read as its value. -/
theorem exactly?_unended (d : Decimal) : exactly? (d.positional []) = some d.value := by
  rcases lt_or_ge d.exponent 0 with below | whole
  · exact exactly?_positional below []
  · have zeros_digit : ∀ c ∈ zeros d.exponent.toNat, c.isDigit := by
      intro c member
      rw [(List.mem_replicate.1 member).2]
      rfl
    have numeral : IsNumeral (digits d.significand ++ zeros d.exponent.toNat) := by
      obtain ⟨some_digit, digit⟩ := isNumeral_digits d.significand
      exact ⟨List.append_ne_nil_of_left_ne_nil some_digit _,
        List.forall_mem_append.2 ⟨digit, zeros_digit⟩⟩
    have shape : d.positional [] = digits d.significand ++ zeros d.exponent.toNat := by
      rw [Decimal.positional, if_pos whole, List.append_nil]
    have power : (10 : ℚ) ^ d.exponent = 10 ^ d.exponent.toNat := by
      rw [← zpow_natCast, Int.toNat_of_nonneg whole]
    have length : (zeros d.exponent.toNat).length = d.exponent.toNat := List.length_replicate
    rw [shape, exactly?_numeral numeral, naturalOf_append, naturalOf_digits, naturalOf_zeros, length,
      Decimal.value, power]
    push_cast
    ring_nf

/-! ### Floats and their texts -/

theorem binary_of_finite {x : Float} (finite : x.isFinite) :
    (∃ s, binary x = .zero s) ∨ ∃ s m e m_pos, binary x = .finite s m e m_pos := by
  have number : (binary x).isFinite := finite
  cases shape : binary x with
  | zero s => exact .inl ⟨s, rfl⟩
  | finite s m e m_pos => exact .inr ⟨s, m, e, m_pos, rfl⟩
  | notANumber | infinity =>
      rw [shape] at number
      cases number

theorem binary_of_not_finite {x : Float} (bad : ¬x.isFinite) :
    binary x = .notANumber ∨ ∃ s, binary x = .infinity s := by
  have number : ¬(binary x).isFinite := bad
  cases shape : binary x with
  | notANumber => exact .inl rfl
  | infinity s => exact .inr ⟨s, rfl⟩
  | zero | finite =>
      rw [shape] at number
      exact absurd rfl number

/-- The text of a finite float is a sign and digits, which denote a number that is rounded to it. -/
theorem exists_spelling {x : Float} (finite : x.isFinite) : ∃ s cs q,
    (plain x).toList = (signText s).toList ++ cs ∧ '-' ∉ cs ∧ exactly? cs = some q ∧
      (binary x).sign? = some s ∧ Rounds (signed s 1 * q) (value x) := by
  rcases binary_of_finite finite with ⟨s, shape⟩ | ⟨s, m, e, m_pos, shape⟩
  · unfold plain value
    rw [shape]
    refine ⟨s, ['0'], 0, ?_, by decide, exactly?_numeral ⟨by simp, by simp⟩, rfl, ?_⟩
    · simp [Layout.write, Layout.plain]
    · rw [mul_zero]
      exact rounds_zero
  · obtain ⟨⟨fits, least, full⟩, greatest⟩ := Binary.bounds_of_unpack shape
    have rounds := rounds_shortest m_pos fits least greatest full Layout.plain.tie
    unfold plain value
    rw [shape]
    refine ⟨s, (shortest Format.binary64 Layout.plain.tie m e).positional [], _, ?_, ?_,
      exactly?_unended _, rfl, rounds.signed s⟩
    · simp [Layout.write, Layout.spell, Layout.plain]
    · intro member
      rcases Decimal.mem_positional member with digit | point | ending
      · cases digit
      · cases point
      · cases ending

/-- A sign can be told from digits without one. -/
theorem signText_append_inj {s s' : Sign} {cs cs' : List Char} (unsigned : '-' ∉ cs)
    (unsigned' : '-' ∉ cs') (same : (signText s).toList ++ cs = (signText s').toList ++ cs') :
    s = s' ∧ cs = cs' := by
  have plus : (signText .positive).toList = [] := rfl
  have minus : (signText .negative).toList = ['-'] := rfl
  cases s with
  | positive =>
      cases s' with
      | positive => exact ⟨rfl, same⟩
      | negative =>
          rw [plus, minus, List.nil_append] at same
          rw [same] at unsigned
          exact absurd List.mem_cons_self unsigned
  | negative =>
      cases s' with
      | positive =>
          rw [plus, minus, List.nil_append] at same
          rw [← same] at unsigned'
          exact absurd List.mem_cons_self unsigned'
      | negative => exact ⟨rfl, List.append_cancel_left same⟩

/-- Zeros are told apart by their signs. -/
theorem binary_eq_zero {x : Float} {s : Sign} (finite : x.isFinite) (none : value x = 0)
    (sign : (binary x).sign? = some s) : binary x = .zero s := by
  unfold value at none
  rcases binary_of_finite finite with ⟨s', shape⟩ | ⟨s', m, e, m_pos, shape⟩
  · rw [shape] at sign
    cases sign
    exact shape
  · rw [shape, Binary.value, signed_eq] at none
    have nonzero : (signed s' 1 : ℚ) * m * 2 ^ e ≠ 0 := by
      refine mul_ne_zero (mul_ne_zero ?_ (by exact_mod_cast m_pos.ne')) (by positivity)
      cases s' <;> simp [signed]
    exact absurd none nonzero

/-- Finite floats have the same text only if they are the same. -/
theorem eq_of_plain {x y : Float} (finite : x.isFinite) (finite' : y.isFinite)
    (same : plain x = plain y) : x = y := by
  obtain ⟨s, cs, q, text, unsigned, read, sign, rounds⟩ := exists_spelling finite
  obtain ⟨s', cs', q', text', unsigned', read', sign', rounds'⟩ := exists_spelling finite'
  rw [same, text'] at text
  obtain ⟨rfl, rfl⟩ := signText_append_inj unsigned' unsigned text
  rw [read'] at read
  cases read
  have values : value x = value y := rounds.unique rounds'
  by_cases none : value x = 0
  · have zero := binary_eq_zero finite none sign
    rw [values] at none
    have zero' := binary_eq_zero finite' none sign'
    exact binary_injective (zero.trans zero'.symm)
  · exact eq_of_value finite finite' none values

/-- Infinities are told apart by their signs, and what is not a number is one float. -/
theorem eq_of_plain_of_not_finite {x y : Float} (bad : ¬x.isFinite) (bad' : ¬y.isFinite)
    (same : plain x = plain y) : x = y := by
  have infinity_ne : ∀ s, Layout.plain.write Format.binary64 (.infinity s) ≠
      Layout.plain.write Format.binary64 .notANumber := by
    intro s
    cases s <;> decide
  have infinity_inj : ∀ s s', Layout.plain.write Format.binary64 (.infinity s) =
      Layout.plain.write Format.binary64 (.infinity s') → s = s' := by
    intro s s' same
    cases s <;> cases s' <;> simp [Layout.write, Layout.plain, signText] at same ⊢
  unfold plain at same
  apply binary_injective
  rcases binary_of_not_finite bad with shape | ⟨s, shape⟩
  · rcases binary_of_not_finite bad' with shape' | ⟨s', shape'⟩
    · rw [shape, shape']
    · rw [shape, shape'] at same
      exact absurd same.symm (infinity_ne s')
  · rcases binary_of_not_finite bad' with shape' | ⟨s', shape'⟩
    · rw [shape, shape'] at same
      exact absurd same (infinity_ne s)
    · rw [shape, shape'] at same ⊢
      rw [infinity_inj s s' same]

/-- Distinct floats have distinct texts. -/
theorem plain_injective : Function.Injective plain := by
  intro x y same
  have alike : x.isFinite ↔ y.isFinite := by
    rw [← not_iff_not, ← plain_mem_nonFiniteTexts_iff, ← plain_mem_nonFiniteTexts_iff, same]
  by_cases finite : x.isFinite
  · exact eq_of_plain finite (alike.1 finite) same
  · exact eq_of_plain_of_not_finite finite (fun finite' => finite (alike.2 finite')) same

end Emblem.Number
