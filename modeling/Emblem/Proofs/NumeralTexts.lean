/-
Module: Emblem.Proofs.NumeralTexts
Purpose: What is read from numerals as they are written: digits alone are a natural; with a fraction or
  an exponent part they are a float, made from all digits before the exponent part as one significand.
Main exports: NumeralText, NumeralText.reads_float, reads_natural, reads_readNumberAs,
  reads_readNatural
-/
import Emblem.Number.Literal
import Emblem.Proofs.DecimalText
import Emblem.Proofs.StableReaders

namespace Emblem.Json

open Number (IsNumeral)
open Number.Literal (naturalOf)
open Reader (Reads)

/-! ### Digits -/

section Digits

variable {c : Char}

theorem bounds_of_isDigit (digit : c.isDigit) : 48 ≤ c.toNat ∧ c.toNat ≤ 57 := by
  simpa [Char.isDigit, UInt32.le_iff_toNat_le] using digit

theorem toNat_octet (small : c.toNat < 256) : (octet c).toNat = c.toNat := by
  rw [octet, Nat.toUInt8, UInt8.toNat_ofNat', Nat.mod_eq_of_lt small]

theorem isDigit_octet (digit : c.isDigit) : isDigit (octet c) := by
  obtain ⟨low, high⟩ := bounds_of_isDigit digit
  have zero : (octet '0').toNat = 48 := rfl
  have nine : (octet '9').toNat = 57 := rfl
  simp only [isDigit, Bool.and_eq_true, decide_eq_true_iff, UInt8.le_iff_toNat_le]
  rw [toNat_octet (c := c) (by omega), zero, nine]
  exact ⟨low, high⟩

theorem digitValue_octet (digit : c.isDigit) : digitValue (octet c) = c.toNat - '0'.toNat := by
  obtain ⟨_, high⟩ := bounds_of_isDigit digit
  rw [digitValue, toNat_octet (by omega)]

/-- The values of digits. -/
def digitValues (cs : List Char) : List Nat :=
  cs.map fun c => c.toNat - '0'.toNat

theorem map_digitValue {cs : List Char} (digits : ∀ c ∈ cs, c.isDigit) :
    (cs.map octet).map digitValue = digitValues cs := by
  rw [List.map_map]
  exact List.map_congr_left fun c member => digitValue_octet (digits c member)

theorem le_ofDigitChars (cs : List Char) (s : Nat) : s ≤ Nat.ofDigitChars 10 cs s := by
  induction cs generalizing s with
  | nil => exact le_refl s
  | cons c cs ih =>
      rw [Nat.ofDigitChars_cons]
      exact le_trans (by omega) (ih _)

/-- Digits are all absorbed into a significand that they do not lift above its limit. -/
theorem absorb_digitValues {limit s : Nat} {cs : List Char} (fits : Nat.ofDigitChars 10 cs s ≤ limit) :
    absorb limit s (digitValues cs) = (Nat.ofDigitChars 10 cs s, cs.length) := by
  induction cs generalizing s with
  | nil => rfl
  | cons c cs ih =>
      rw [Nat.ofDigitChars_cons] at fits
      have next := (le_ofDigitChars cs _).trans fits
      rw [digitValues, List.map_cons, absorb, if_neg (not_lt.2 next), ← digitValues, ih fits,
        Nat.ofDigitChars_cons]
      rfl

end Digits

/-! ### Parts of a numeral -/

section Parts

variable {rest : List UInt8}

/-- No digit follows. -/
def EndsDigits (rest : List UInt8) : Prop :=
  ∀ b ∈ rest.head?, isDigit b = false

theorem reads_readDigits {cs : List Char} (digits : ∀ c ∈ cs, c.isDigit) (ends : EndsDigits rest) :
    readDigits.Reads (cs.map octet ++ rest) (digitValues cs) rest := by
  have inside : ∀ b ∈ cs.map octet, isDigit b := by
    intro b member
    obtain ⟨c, there, rfl⟩ := List.mem_map.1 member
    exact isDigit_octet (digits c there)
  refine (reads_takeRun inside ends).bind ?_
  rw [map_digitValue digits]
  exact .pure _ _

/-- A whole part is a zero, or has no leading one. -/
theorem reads_readWhole {whole : List Char} (numeral : IsNumeral whole)
    (first : whole = ['0'] ∨ whole.head? ≠ some '0') (ends : EndsDigits rest) :
    readWhole.Reads (whole.map octet ++ rest) (digitValues whole) rest := by
  cases whole with
  | nil => exact absurd rfl numeral.1
  | cons c cs =>
      have digit := numeral.2 c List.mem_cons_self
      refine (reads_next _ _).bind ?_
      dsimp only
      by_cases zero : c = '0'
      · subst zero
        have single : cs = [] := by
          rcases first with same | other
          · cases same
            rfl
          · exact absurd rfl other
        subst single
        rw [if_pos rfl]
        cases rest with
        | nil => exact reads_peek_nil.bind (.pure _ _)
        | cons b rest =>
            refine (reads_peek b rest).bind ?_
            dsimp only
            rw [if_neg (by simp [ends b rfl])]
            exact .pure _ _
      · have other : octet c ≠ octet '0' := by
          intro same
          obtain ⟨_, high⟩ := bounds_of_isDigit digit
          have number := congrArg UInt8.toNat same
          rw [toNat_octet (by omega), toNat_octet (by decide)] at number
          exact zero (Char.toNat_inj.1 number)
        rw [if_neg other, if_pos (isDigit_octet digit), digitValue_octet digit]
        have more := reads_readDigits (fun d member => numeral.2 d (List.mem_cons_of_mem c member)) ends
        exact more.bind (.pure _ _)

/-- A point and the digits after it, if there are any. -/
def afterPoint (fraction : List Char) : List Char :=
  if fraction = [] then [] else '.' :: fraction

theorem reads_readFraction {fraction : List Char} (digits : ∀ c ∈ fraction, c.isDigit)
    (ends : EndsDigits rest) (noPoint : ∀ b ∈ rest.head?, b ≠ octet '.') :
    ∃ found, readFraction.Reads ((afterPoint fraction).map octet ++ rest) found rest ∧
      found.getD [] = digitValues fraction ∧ found.isNone = fraction.isEmpty := by
  cases fraction with
  | nil =>
      refine ⟨none, ?_, rfl, rfl⟩
      cases rest with
      | nil => exact reads_peek_nil.bind (.pure _ _)
      | cons b rest =>
          refine (reads_peek b rest).bind ?_
          dsimp only
          rw [if_neg (noPoint b rfl)]
          exact .pure _ _
  | cons c cs =>
      refine ⟨some (digitValues (c :: cs)), ?_, rfl, rfl⟩
      refine (reads_peek _ _).bind ?_
      dsimp only
      rw [if_pos rfl]
      exact (reads_discard _ _).bind ((reads_readDigits digits ends).bind (.pure _ _))

/-- The exponent part: a sign, which is always written, and digits. -/
structure ExponentText where
  minus : Bool
  digits : List Char
  numeral : IsNumeral digits

namespace ExponentText

def chars (t : ExponentText) : List Char :=
  'e' :: (if t.minus then '-' else '+') :: t.digits

/-- The power of ten that is written. -/
def power (t : ExponentText) : Int :=
  if t.minus then -(naturalOf t.digits : Int) else naturalOf t.digits

end ExponentText

theorem reads_get_bind {β : Type} {f : Cursor → Reader β} {octets left : List UInt8} {b : β}
    (reads : ∀ c : Cursor, c.rest = octets → (f c).Reads octets b left) :
    Reads (get >>= f) octets b left := by
  intro c here
  obtain ⟨c', last, taken⟩ := reads c here c here
  exact ⟨c', last, takes_bind_iff.2 ⟨c, c, rfl, taken⟩⟩

theorem reads_readSign (minus : Bool) (rest : List UInt8) :
    readSign.Reads (octet (if minus then '-' else '+') :: rest) minus rest := by
  refine (reads_peek _ _).bind ?_
  cases minus with
  | true => exact (reads_discard _ _).bind (.pure _ _)
  | false => exact (reads_discard _ _).bind (.pure _ _)

/-- The exponent part adds to the power of ten. -/
theorem reads_readExponent {t : ExponentText} (fits : naturalOf t.digits ≤ exponentLimit) {negative : Bool}
    {significand : Nat} {start : Int} {x : Float}
    (number : floatOfParts negative significand (start + t.power) = some x) :
    (readExponent negative significand start).Reads (t.chars.map octet) x [] := by
  obtain ⟨minus, digits, numeral⟩ := t
  cases digits with
  | nil => exact absurd rfl numeral.1
  | cons c cs =>
      have digit := numeral.2 c List.mem_cons_self
      have inside : ∀ d ∈ cs, d.isDigit := fun d member => numeral.2 d (List.mem_cons_of_mem c member)
      -- The first digit is read alone, and the others are absorbed into it.
      have same : Nat.ofDigitChars 10 cs (c.toNat - '0'.toNat) = naturalOf (c :: cs) := by
        have digitwise : naturalOf (c :: cs) = Nat.ofDigitChars 10 (c :: cs) 0 := rfl
        rw [digitwise, Nat.ofDigitChars_cons, Nat.mul_zero, Nat.zero_add]
      have absorbed : absorb exponentLimit (c.toNat - '0'.toNat) (digitValues cs) =
          (naturalOf (c :: cs), cs.length) := by
        rw [← same]
        exact absorb_digitValues (same.trans_le fits)
      refine (reads_discard _ _).bind ((reads_readSign minus _).bind ((reads_next _ _).bind ?_))
      dsimp only
      rw [if_pos (isDigit_octet digit)]
      refine reads_get_bind fun cursor here => ?_
      have run : (cursor.rest.takeWhile isDigit).map digitValue = digitValues cs := by
        rw [here, List.takeWhile_eq_self_iff.2, map_digitValue inside]
        intro b member
        obtain ⟨d, there, rfl⟩ := List.mem_map.1 member
        exact isDigit_octet (inside d there)
      have scaled : floatOfParts negative significand
          (if minus then start - naturalOf (c :: cs) else start + naturalOf (c :: cs)) = some x := by
        rw [← number]
        cases minus <;> rfl
      have more : readDigits.Reads (cs.map octet ++ []) (digitValues cs) [] :=
        reads_readDigits inside fun _ head => by cases head
      rw [List.append_nil] at more
      rw [run, digitValue_octet digit, absorbed]
      dsimp only
      rw [if_pos (by simp [digitValues])]
      refine more.bind ?_
      rw [scaled]
      exact .pure _ _

end Parts

/-! ### Numerals -/

/-- A number as it is written after its sign. -/
structure NumeralText where
  whole : List Char
  fraction : List Char
  exponent : Option ExponentText
  numeral : IsNumeral whole
  first : whole = ['0'] ∨ whole.head? ≠ some '0'
  digits : ∀ c ∈ fraction, c.isDigit

namespace NumeralText

variable {n : NumeralText}

def exponentChars (n : NumeralText) : List Char :=
  match n.exponent with
  | none => []
  | some t => t.chars

def chars (n : NumeralText) : List Char :=
  n.whole ++ (afterPoint n.fraction ++ n.exponentChars)

theorem exists_chars (n : NumeralText) : ∃ c cs, n.chars = c :: cs ∧ c.isDigit := by
  have numeral := n.numeral
  unfold chars
  cases whole : n.whole with
  | nil => exact absurd whole numeral.1
  | cons c cs =>
      rw [whole] at numeral
      exact ⟨c, _, rfl, numeral.2 c List.mem_cons_self⟩

/-- Numerals are ASCII. -/
theorem ascii (n : NumeralText) : ∀ c ∈ n.chars, c.toNat < 128 := by
  have digit : ∀ {c : Char}, c.isDigit → c.toNat < 128 := fun digit => by
    have := (bounds_of_isDigit digit).2
    omega
  intro c member
  rcases List.mem_append.1 member with inWhole | later
  · exact digit (n.numeral.2 c inWhole)
  · rcases List.mem_append.1 later with inFraction | inExponent
    · unfold afterPoint at inFraction
      split at inFraction
      · cases inFraction
      · rcases List.mem_cons.1 inFraction with rfl | inside
        · decide
        · exact digit (n.digits c inside)
    · unfold exponentChars at inExponent
      split at inExponent
      · cases inExponent
      case h_2 t _ =>
        rcases List.mem_cons.1 inExponent with rfl | later
        · decide
        · rcases List.mem_cons.1 later with rfl | inside
          · split <;> decide
          · exact digit (t.numeral.2 c inside)

/-- All digits before the exponent part. -/
def significand (n : NumeralText) : Nat :=
  naturalOf (n.whole ++ n.fraction)

def power (n : NumeralText) : Int :=
  (match n.exponent with
  | none => 0
  | some t => t.power) - n.fraction.length

theorem head_exponentChars {b : UInt8} (head : b ∈ (n.exponentChars.map octet).head?) : b = octet 'e' := by
  unfold exponentChars at head
  split at head
  · cases head
  · cases head
    rfl

theorem head_afterWhole {b : UInt8}
    (head : b ∈ ((afterPoint n.fraction ++ n.exponentChars).map octet).head?) :
    b = octet '.' ∨ b = octet 'e' := by
  unfold afterPoint at head
  split at head
  · exact .inr (head_exponentChars head)
  · cases head
    exact .inl rfl

/-- The digits of the whole part, and then those of the fraction, make the significand. -/
theorem absorbed (fits : n.significand ≤ significandLimit) :
    absorb significandLimit 0 (digitValues n.whole) = (naturalOf n.whole, n.whole.length) ∧
      absorb significandLimit (naturalOf n.whole) (digitValues n.fraction) =
        (n.significand, n.fraction.length) := by
  have split : n.significand = Nat.ofDigitChars 10 n.fraction (naturalOf n.whole) :=
    Nat.ofDigitChars_append 0
  rw [split] at fits ⊢
  exact ⟨absorb_digitValues ((le_ofDigitChars _ _).trans fits), absorb_digitValues fits⟩

theorem reads_peekExponent (n : NumeralText) : peekExponent.Reads (n.exponentChars.map octet)
    n.exponent.isSome (n.exponentChars.map octet) := by
  unfold exponentChars
  cases n.exponent with
  | none => exact reads_peek_nil.bind (.pure _ _)
  | some t => exact (reads_peek _ _).bind (.pure _ _)

/-- A numeral with a fraction or an exponent part is a float made of its significand and its power of
ten. -/
theorem reads_float {negative : Bool} {x : Float} (marked : n.fraction ≠ [] ∨ n.exponent ≠ none)
    (fits : n.significand ≤ significandLimit)
    (few : ∀ t ∈ n.exponent, naturalOf t.digits ≤ exponentLimit)
    (number : floatOfParts negative n.significand n.power = some x) :
    (readNumeral negative).Reads (n.chars.map octet) (.float x) [] := by
  obtain ⟨whole, fraction⟩ := absorbed fits
  have ends : EndsDigits (n.exponentChars.map octet) := by
    intro b head
    rw [head_exponentChars head]
    rfl
  obtain ⟨found, readsFraction, digits, missing⟩ := reads_readFraction n.digits ends fun b head => by
    rw [head_exponentChars head]
    decide
  have octets : n.chars.map octet =
      n.whole.map octet ++ (afterPoint n.fraction ++ n.exponentChars).map octet := by
    simp [chars]
  rw [octets]
  refine (reads_readWhole n.numeral n.first fun b head => ?_).bind ?_
  · rcases head_afterWhole head with rfl | rfl <;> rfl
  · dsimp only
    rw [whole, List.map_append]
    refine readsFraction.bind ?_
    rw [digits, fraction]
    refine (reads_peekExponent n).bind ?_
    have start : (((digitValues n.whole).length - n.whole.length : Nat) : Int) - n.fraction.length =
        -n.fraction.length := by
      simp [digitValues]
    rw [start]
    cases part : n.exponent with
    | some t =>
        have scaled : floatOfParts negative n.significand (-n.fraction.length + t.power) = some x := by
          rw [← number, power, part]
          congr 1
          exact neg_add_eq_sub _ _
        have octets' : n.exponentChars = t.chars := by rw [exponentChars, part]
        dsimp only
        rw [if_pos Option.isSome_some, octets']
        exact (reads_readExponent (few t part) scaled).bind (.pure _ _)
    | none =>
        have fractional : found.isNone = false := by
          rw [missing, List.isEmpty_eq_false_iff]
          exact marked.resolve_right fun other => other part
        have scaled : floatOfParts negative n.significand (-n.fraction.length) = some x := by
          rw [← number, power, part, zero_sub]
        have octets' : n.exponentChars = [] := by rw [exponentChars, part]
        dsimp only
        rw [fractional, scaled, octets']
        exact .pure _ _

end NumeralText

/-! ### Naturals -/

/-- No numeral of a positive number begins with a zero. -/
theorem head_digits_ne {n : Nat} (positive : 0 < n) : (Number.digits n).head? ≠ some '0' := by
  induction n using Nat.strongRecOn with
  | ind n ih =>
      unfold Number.digits at ih ⊢
      rcases Nat.lt_or_ge n 10 with single | more
      · rw [Nat.toDigits_of_lt_base single]
        interval_cases n <;> decide
      · have shorter := ih (n / 10) (by omega) (by omega)
        rw [Nat.toDigits_of_base_le (by decide) more]
        cases front : Nat.toDigits 10 (n / 10) with
        | nil => exact absurd front Nat.toDigits_ne_nil
        | cons c cs =>
            rw [front] at shorter
            exact shorter

theorem first_digits (n : Nat) : Number.digits n = ['0'] ∨ (Number.digits n).head? ≠ some '0' := by
  rcases Nat.eq_zero_or_pos n with rfl | positive
  · exact .inl rfl
  · exact .inr (head_digits_ne positive)

/-- Digits alone are a natural. -/
theorem reads_natural {n : Nat} (fits : n ≤ significandLimit) :
    (readNumeral false).Reads ((Number.digits n).map octet) (.natural n) [] := by
  have same : Nat.ofDigitChars 10 (Number.digits n) 0 = n :=
    Nat.ofDigitChars_toDigits (by decide) (by decide)
  have absorbed : absorb significandLimit 0 (digitValues (Number.digits n)) =
      (n, (Number.digits n).length) := by
    rw [absorb_digitValues (by rw [same]; exact fits), same]
  have whole : readWhole.Reads ((Number.digits n).map octet ++ []) (digitValues (Number.digits n)) [] :=
    reads_readWhole (Number.isNumeral_digits n) (first_digits n) fun _ head => by cases head
  have noFraction : readFraction.Reads [] none [] := reads_peek_nil.bind (.pure _ _)
  have noExponent : peekExponent.Reads [] false [] := reads_peek_nil.bind (.pure _ _)
  rw [List.append_nil] at whole
  refine whole.bind ?_
  dsimp only
  rw [absorbed]
  refine noFraction.bind (noExponent.bind ?_)
  have complete : ((Number.digits n).length == (digitValues (Number.digits n)).length) = true := by
    simp [digitValues]
  dsimp only
  rw [complete]
  exact .pure _ _

/-! ### Values -/

section Values

variable {α : Type} {expected : String} {use : Numeral → Reader α} {a : α} {number : Numeral}

theorem isSpace_of_isDigit {b : UInt8} (digit : isDigit b) : isSpace b = false := by
  rw [Bool.eq_false_iff]
  intro space
  simp only [isSpace, Bool.or_eq_true, beq_iff_eq] at space
  rcases space with ((rfl | rfl) | rfl) | rfl <;> exact absurd digit (by decide)

/-- Numbers without a sign begin with a digit. -/
theorem reads_readNumberAs {c : Char} {cs : List Char} (digit : c.isDigit)
    (reads : (readNumeral false).Reads ((c :: cs).map octet) number []) (used : (use number).Reads [] a []) :
    (readNumberAs expected use).Reads ((c :: cs).map octet) a [] := by
  have first := isDigit_octet digit
  have other : octet c ≠ octet '-' := by
    intro same
    rw [same] at first
    exact absurd first (by decide)
  refine (reads_peekValue blank_nil (isSpace_of_isDigit first)).bind (Reads.settle ?_)
  rw [if_neg other, if_pos first]
  exact reads.bind used

/-- With a minus sign before them, they are read after it. -/
theorem reads_readNumberAs_minus {cs : List Char} (reads : (readNumeral true).Reads (cs.map octet) number [])
    (used : (use number).Reads [] a []) :
    (readNumberAs expected use).Reads (('-' :: cs).map octet) a [] := by
  refine (reads_peekValue blank_nil (by decide)).bind (Reads.settle ?_)
  rw [if_pos rfl]
  exact (reads_discard _ _).bind (reads.bind used)

/-- A natural is read from its digits. -/
theorem reads_readNatural {n limit : Nat} (fits : n ≤ limit) (below : limit ≤ significandLimit) :
    (readNatural expected limit).Reads ((Number.digits n).map octet) n [] := by
  have numeral := Number.isNumeral_digits n
  have reads := reads_natural (fits.trans below)
  cases shape : Number.digits n with
  | nil => exact absurd shape numeral.1
  | cons c cs =>
      rw [shape] at reads numeral
      refine reads_readNumberAs (numeral.2 c List.mem_cons_self) reads ?_
      dsimp only
      rw [if_pos fits]
      exact .pure _ _

end Values

end Emblem.Json
