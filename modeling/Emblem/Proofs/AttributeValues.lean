/-
Module: Emblem.Proofs.AttributeValues
Purpose: What the attribute values of a drawing are written with: letters, digits and a few marks.
  None of them has a meaning in a document, so the values need no escapes, and a tag is one line with
  one opening bracket.
Main exports: isValueChar, IsValue, nonFiniteTexts, Number.plain_mem_nonFiniteTexts_iff,
  Svg.Element.Plain, Svg.plain_line, Svg.plain_circle, Svg.plain_animate, Svg.plain_root
-/
import Emblem.Proofs.DecimalText
import Emblem.Proofs.DocumentReferences

namespace Emblem

/-- Letters, digits and the marks of ids, numbers, colours, clock values and addresses. -/
def isValueChar (c : Char) : Bool :=
  c.isAlphanum || "#+-./:; ".toList.contains c

/-- A text that is written with such characters only. -/
def IsValue (text : String) : Prop :=
  ∀ c ∈ text.toList, isValueChar c

instance : DecidablePred IsValue :=
  fun text => decidable_of_iff (text.toList.all isValueChar) List.all_eq_true

section Texts

variable {c : Char} {s t : String} {cs : List Char}

theorem isValueChar_of_isDigit (digit : c.isDigit) : isValueChar c := by
  simp [isValueChar, Char.isAlphanum, digit]

@[simp] theorem isValue_append : IsValue (s ++ t) ↔ IsValue s ∧ IsValue t := by
  simp only [IsValue, String.toList_append, List.mem_append, or_imp, forall_and]

@[simp] theorem isValue_ofList : IsValue (.ofList cs) ↔ ∀ c ∈ cs, isValueChar c := by
  simp only [IsValue, String.toList_ofList]

theorem isValue_toString (n : Nat) : IsValue (toString n) := by
  intro c member
  apply isValueChar_of_isDigit
  have digits : c ∈ Nat.toDigits 10 n := by simpa using member
  exact Nat.isDigit_of_mem_toDigits (by decide) (by decide) digits

end Texts

/-! ### Ids, colours and numbers -/

theorem NodeKey.isValue_elementId (key : NodeKey) : IsValue key.elementId := by
  cases key with
  | ring i => exact isValue_append.2 ⟨by decide, isValue_toString i⟩
  | fan side => cases side <;> decide

theorem EdgeKey.isValue_elementId (key : EdgeKey) : IsValue key.elementId := by
  cases key with
  | fan side => cases side <;> decide
  | ring i j =>
      have start : IsValue ("edge-" ++ toString i ++ "-") :=
        isValue_append.2 ⟨isValue_append.2 ⟨by decide, isValue_toString i⟩, by decide⟩
      exact isValue_append.2 ⟨start, isValue_toString j⟩

theorem StepId.isValue_elementId (id : StepId) : IsValue id.elementId :=
  isValue_append.2 ⟨by decide, isValue_toString id.index⟩

theorem Property.isValue_name (p : Property) : IsValue p.name := by
  cases p <;> decide

theorem Canvas.isValue_viewBox (c : Canvas) : IsValue c.viewBox := by
  have start : IsValue ("0 0 " ++ toString c.width.toNat ++ " ") :=
    isValue_append.2 ⟨isValue_append.2 ⟨by decide, isValue_toString _⟩, by decide⟩
  exact isValue_append.2 ⟨start, isValue_toString _⟩

theorem Color.isValueChar_hexChar {n : Nat} (digit : n < 16) : isValueChar (hexChar n) := by
  revert n
  decide

theorem Color.isValue_toHex (c : Color) : IsValue c.toHex := by
  have channel : ∀ n : UInt8, ∀ d ∈ channelText n, isValueChar d := by
    intro n d member
    have small := n.toNat_lt
    simp only [channelText, List.mem_cons, List.not_mem_nil, or_false] at member
    rcases member with rfl | rfl
    · exact isValueChar_hexChar (by omega)
    · exact isValueChar_hexChar (by omega)
  rw [toHex, isValue_ofList]
  intro d member
  simp only [List.cons_append, List.mem_cons, List.mem_append] at member
  rcases member with rfl | (red | green) | blue
  · rfl
  · exact channel _ d red
  · exact channel _ d green
  · exact channel _ d blue

/-- The texts of floats that are not finite. -/
def nonFiniteTexts : List String := ["inf", "-inf", "NaN"]

/-- Such a text has a letter in it that no number has. -/
theorem letter_of_mem_nonFiniteTexts {text : String} (member : text ∈ nonFiniteTexts) :
    'n' ∈ text.toList ∨ 'N' ∈ text.toList := by
  revert text
  decide

namespace Number

theorem isValue_places (k : Nat) (x : Float) : IsValue (places k x) := by
  intro c member
  rcases mem_places member with digit | letter
  · exact isValueChar_of_isDigit digit
  · have letters : IsValue "-.NaNinf" := by decide
    exact letters c letter

/-- All places of a number are digits with a point among them, but for its ending. -/
theorem Decimal.mem_positional {d : Decimal} {wholeEnd : List Char} {c : Char}
    (member : c ∈ d.positional wholeEnd) : c.isDigit ∨ c = '.' ∨ c ∈ wholeEnd := by
  have digit : ∀ c ∈ digits d.significand, c.isDigit := (isNumeral_digits d.significand).2
  have zero : ∀ n, ∀ c ∈ zeros n, c.isDigit := by
    intro n c zeros
    rw [(List.mem_replicate.1 zeros).2]
    rfl
  unfold positional at member
  simp only at member
  split at member
  case isTrue =>
      simp only [List.mem_append] at member
      rcases member with (number | filling) | ending
      · exact .inl (digit c number)
      · exact .inl (zero _ c filling)
      · exact .inr (.inr ending)
  case isFalse =>
      split at member
      case isTrue =>
          simp only [List.mem_append, List.mem_cons] at member
          rcases member with whole | point | fraction
          · exact .inl (digit c (List.mem_of_mem_take whole))
          · exact .inr (.inl point)
          · exact .inl (digit c (List.mem_of_mem_drop fraction))
      case isFalse =>
          simp only [List.cons_append, List.mem_append, List.mem_cons] at member
          rcases member with rfl | point | filling | fraction
          · exact .inl rfl
          · exact .inr (.inl point)
          · exact .inl (zero _ c filling)
          · exact .inl (digit c fraction)

/-- Finite floats are written with digits, a point and a sign. -/
theorem mem_plain {x : Float} (finite : x.isFinite) {c : Char} (member : c ∈ (plain x).toList) :
    c.isDigit ∨ c = '.' ∨ c = '-' := by
  have number : (binary x).isFinite := finite
  have sign : ∀ s, c ∈ (signText s).toList → c = '-' := by
    intro s written
    cases s with
    | negative => exact List.mem_singleton.1 written
    | positive => cases written
  unfold plain Layout.write at member
  cases shape : binary x with
  | notANumber =>
      rw [shape] at number
      cases number
  | infinity s =>
      rw [shape] at number
      cases number
  | zero s =>
      simp only [shape, String.toList_append, String.toList_ofList, List.mem_append] at member
      rcases member with signed | zero
      · exact .inr (.inr (sign s signed))
      · rw [List.mem_singleton.1 zero]
        exact .inl rfl
  | finite s m e m_pos =>
      simp only [shape, String.toList_append, String.toList_ofList, List.mem_append] at member
      rcases member with signed | positional
      · exact .inr (.inr (sign s signed))
      · rcases Decimal.mem_positional positional with digit | point | ending
        · exact .inl digit
        · exact .inr (.inl point)
        · cases ending

/-- The text of a float tells whether it is finite. -/
theorem plain_mem_nonFiniteTexts_iff (x : Float) : plain x ∈ nonFiniteTexts ↔ ¬x.isFinite := by
  constructor
  · intro member finite
    rcases letter_of_mem_nonFiniteTexts member with small | capital
    · exact absurd (mem_plain finite small) (by decide)
    · exact absurd (mem_plain finite capital) (by decide)
  · intro bad
    have number : ¬(binary x).isFinite := bad
    unfold plain Layout.write
    cases shape : binary x with
    | notANumber => decide
    | infinity s => cases s <;> decide
    | zero s =>
        rw [shape] at number
        exact absurd rfl number
    | finite s m e m_pos =>
        rw [shape] at number
        exact absurd rfl number

theorem isValue_plain (x : Float) : IsValue (plain x) := by
  by_cases finite : x.isFinite
  · intro c member
    rcases mem_plain finite member with digit | rfl | rfl
    · exact isValueChar_of_isDigit digit
    · rfl
    · rfl
  · have values : ∀ text ∈ nonFiniteTexts, IsValue text := by decide
    exact values _ ((plain_mem_nonFiniteTexts_iff x).2 finite)

end Number

theorem Begin.isValue_text (b : Begin) : IsValue b.text := by
  have offset : ∀ t, IsValue (offsetText t) := by
    intro t
    exact isValue_append.2 ⟨isValue_append.2 ⟨by decide, Number.isValue_places 2 t⟩, by decide⟩
  cases b with
  | once t => exact offset t
  | chained t anchor =>
      simp only [text, isValue_append]
      exact ⟨⟨⟨⟨offset t, by decide⟩, anchor.isValue_elementId⟩, by decide⟩, offset t⟩

theorem Step.isValue_durationText (s : Step) : IsValue s.durationText := by
  unfold durationText
  split
  · exact isValue_append.2 ⟨Number.isValue_places 1 _, by decide⟩
  · exact isValue_append.2 ⟨Number.isValue_plain _, by decide⟩

/-! ### Elements -/

namespace Svg

/-- All names and values of an element's tag are written with value characters. -/
structure Element.Plain (e : Element) : Prop where
  name : IsValue e.name
  attributes : ∀ a ∈ e.attributes, IsValue a.1 ∧ IsValue a.2

theorem plain_line (e : Edge) : (line e).Plain := by
  refine ⟨(by decide : IsValue "line"), ?_⟩
  simp only [line, Element.attributes, List.forall_mem_cons, List.not_mem_nil, false_imp_iff,
    implies_true, and_true]
  have number := Number.isValue_plain
  exact ⟨⟨by decide, e.key.isValue_elementId⟩, ⟨by decide, number _⟩, ⟨by decide, number _⟩,
    ⟨by decide, number _⟩, ⟨by decide, number _⟩, ⟨by decide, e.stroke.isValue_toHex⟩,
    ⟨by decide, number _⟩⟩

theorem plain_circle (n : Node) : (circle n).Plain := by
  refine ⟨(by decide : IsValue "circle"), ?_⟩
  simp only [circle, Element.attributes, List.forall_mem_cons, List.not_mem_nil, false_imp_iff,
    implies_true, and_true]
  have number := Number.isValue_plain
  exact ⟨⟨by decide, n.key.isValue_elementId⟩, ⟨by decide, number _⟩, ⟨by decide, number _⟩,
    ⟨by decide, number _⟩, ⟨by decide, n.fill.isValue_toHex⟩⟩

theorem plain_root (c : Canvas) (children : List Element) : (root c children).Plain := by
  refine ⟨(by decide : IsValue "svg"), ?_⟩
  simp only [root, Element.attributes, List.forall_mem_cons, List.not_mem_nil, false_imp_iff,
    implies_true, and_true]
  exact ⟨⟨by decide, by decide⟩, ⟨by decide, by decide⟩, ⟨by decide, isValue_toString _⟩,
    ⟨by decide, isValue_toString _⟩, ⟨by decide, c.isValue_viewBox⟩⟩

/-- The target of a reference has an id without escapes. -/
theorem isValue_of_elementId {s : Scene} {target : ElementRef} {id : String}
    (found : s.elementId target = .ok id) : IsValue id := by
  cases target with
  | node handle =>
      obtain ⟨n, _, rfl⟩ := map_eq_ok_iff.1 found
      exact n.key.isValue_elementId
  | edge handle =>
      obtain ⟨e, _, rfl⟩ := map_eq_ok_iff.1 found
      exact e.key.isValue_elementId

theorem plain_animate {s : Scene} {step : Step} {spec : AnimateSpec}
    (resolved : s.spec step = .ok spec) : (animate spec).Plain := by
  obtain ⟨id, found, made⟩ := bind_eq_ok_iff.1 resolved
  cases made
  refine ⟨(by decide : IsValue "animate"), ?_⟩
  simp only [animate, Element.attributes, List.forall_mem_cons, List.not_mem_nil, false_imp_iff,
    implies_true, and_true]
  exact ⟨⟨by decide, step.id.isValue_elementId⟩,
    ⟨by decide, isValue_append.2 ⟨by decide, isValue_of_elementId found⟩⟩,
    ⟨by decide, step.property.isValue_name⟩, ⟨by decide, step.startColor.isValue_toHex⟩,
    ⟨by decide, step.endColor.isValue_toHex⟩, ⟨by decide, step.begin.isValue_text⟩,
    ⟨by decide, step.isValue_durationText⟩⟩

end Svg

end Emblem
