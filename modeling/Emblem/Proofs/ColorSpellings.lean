/-
Module: Emblem.Proofs.ColorSpellings
Purpose: The spellings of a colour. Neither the case of letters nor white space around a text changes
  what is read, a mark may stand or be left out, and a short text is read as the long one with every
  character doubled. What is printed is one of the spellings, and stands for all of them.
Main exports: Text.trim_append, Text.trim_map_toLower, Color.spells_of_toLower, Color.pair_self_iff,
  Color.capitals, Color.toHex_capitals, Color.normalForm, Color.Spellings, Color.ofHex_spellings
-/
import Emblem.Proofs.ColorGrammar
import Emblem.Proofs.RoundTrip

namespace Emblem

/-! ### White space and case -/

namespace Text

variable {before cs after : List Char}

/-- White space around a text is trimmed away with what the text has of its own. -/
theorem trim_append (blank : ∀ c ∈ before, isBlank c) (blank' : ∀ c ∈ after, isBlank c) :
    trim (before ++ cs ++ after) = trim cs := by
  have none : after.dropWhile isBlank = [] := List.dropWhile_eq_nil_iff.2 blank'
  rw [trim, trim, List.append_assoc, List.dropWhile_append_of_pos blank, List.dropWhile_append]
  split
  case isTrue empty =>
    rw [List.isEmpty_iff.1 empty, none]
  case isFalse =>
    rw [List.reverse_append, List.dropWhile_append_of_pos]
    intro c member
    exact blank' c (List.mem_reverse.1 member)

end Text

theorem toLower_of_large {c : Char} (large : 128 ≤ c.toNat) : c.toLower = c := by
  have upper : ¬(c.val ≥ 'A'.val ∧ c.val ≤ 'Z'.val) := by
    rintro ⟨_, le⟩
    have number : c.toNat ≤ 90 := le
    omega
  exact dif_neg upper

/-- Only ASCII letters have a case, so what does not tell it there never does. -/
theorem apply_toLower {α : Type} {f : Char → α}
    (ascii : ∀ k < 128, f (Char.ofNat k).toLower = f (Char.ofNat k)) (c : Char) : f c.toLower = f c := by
  rcases Nat.lt_or_ge c.toNat 128 with small | large
  · have here := ascii c.toNat small
    rwa [Char.ofNat_toNat] at here
  · rw [toLower_of_large large]

theorem Text.trim_map_toLower (cs : List Char) :
    trim (cs.map Char.toLower) = (trim cs).map Char.toLower := by
  have blank : isBlank ∘ Char.toLower = isBlank := funext (apply_toLower (by decide))
  simp only [trim, List.dropWhile_map, blank, ← List.map_reverse]

namespace Color

/-! ### Spelled digits -/

section Digits

variable {x : Char} {n : Nat} {channel : UInt8} {cs ds : List Char} {color : Color}

theorem digit_toLower_iff : Digit x.toLower n ↔ Digit x n := by
  have value : hexDigit? x.toLower = hexDigit? x := apply_toLower (by decide) x
  rw [← hexDigit?_eq_some_iff, ← hexDigit?_eq_some_iff, value]

theorem leadingDigit_toLower_iff : LeadingDigit x.toLower n ↔ LeadingDigit x n := by
  have plus : (x.toLower = '+') = (x = '+') := apply_toLower (f := (· = '+')) (by decide) x
  rw [LeadingDigit, LeadingDigit, digit_toLower_iff, plus]

/-- Letters of either case are the same digits. -/
theorem digits_of_toLower {y : Char} (same : x.toLower = y.toLower) (n : Nat) :
    (Digit x n ↔ Digit y n) ∧ (LeadingDigit x n ↔ LeadingDigit y n) := by
  rw [← digit_toLower_iff, ← leadingDigit_toLower_iff, same, digit_toLower_iff, leadingDigit_toLower_iff]
  exact ⟨Iff.rfl, Iff.rfl⟩

theorem afterMark_cons_of_ne (unmarked : x ≠ '#') : afterMark (x :: cs) = x :: cs := by
  unfold afterMark
  split
  case h_1 same => exact absurd (List.cons.inj same).1 unmarked
  case h_2 => rfl

theorem afterMark_map_toLower (cs : List Char) :
    afterMark (cs.map Char.toLower) = (afterMark cs).map Char.toLower := by
  cases cs with
  | nil => rfl
  | cons c cs =>
      have mark : (c.toLower = '#') = (c = '#') := apply_toLower (f := (· = '#')) (by decide) c
      by_cases marked : c = '#'
      · rw [marked]
        rfl
      · have unmarked : c.toLower ≠ '#' := by
          rw [ne_eq, mark]
          exact marked
        rw [List.map_cons, afterMark_cons_of_ne unmarked, afterMark_cons_of_ne marked, List.map_cons]

/-- Texts that differ in the case of letters spell the same colours. -/
theorem spells_of_toLower (same : cs.map Char.toLower = ds.map Char.toLower)
    (spells : Spells LeadingDigit cs color) : Spells LeadingDigit ds color := by
  have chars : List.Forall₂ (fun x y : Char => x.toLower = y.toLower) cs ds := by
    have equal : List.Forall₂ (· = ·) (cs.map Char.toLower) (ds.map Char.toLower) := by
      rw [List.forall₂_eq_eq_eq, same]
    rwa [List.forall₂_map_left_iff, List.forall₂_map_right_iff] at equal
  have pair : ∀ {x x' y y' : Char} {channel : UInt8}, x.toLower = y.toLower → x'.toLower = y'.toLower →
      Pair LeadingDigit x x' channel → Pair LeadingDigit y y' channel := by
    rintro x x' y y' channel here next ⟨m, n, first, second, number⟩
    exact ⟨m, n, (digits_of_toLower here m).2.1 first, (digits_of_toLower next n).1.1 second, number⟩
  have single : ∀ {x y : Char} {channel : UInt8}, x.toLower = y.toLower → Single x channel →
      Single y channel := by
    rintro x y channel here ⟨n, digit, number⟩
    exact ⟨n, (digits_of_toLower here n).1.1 digit, number⟩
  -- The rule says how many characters there are, so that they can be taken one by one.
  cases spells with
  | six red green blue =>
      obtain _ | ⟨a, _ | ⟨a', _ | ⟨b, _ | ⟨b', _ | ⟨c, _ | ⟨c', _ | _⟩⟩⟩⟩⟩⟩ := chars
      exact .six (pair a a' red) (pair b b' green) (pair c c' blue)
  | three red green blue =>
      obtain _ | ⟨a, _ | ⟨b, _ | ⟨c, _ | _⟩⟩⟩ := chars
      exact .three (single a red) (single b green) (single c blue)

theorem Digit.unique {m : Nat} (digit : Digit x m) (digit' : Digit x n) : m = n := by
  rw [← hexDigit?_eq_some_iff] at digit digit'
  exact Option.some.inj (digit.symm.trans digit')

/-- Two equal characters are a channel just if one of them alone is. -/
theorem pair_self_iff : Pair LeadingDigit x x channel ↔ Single x channel := by
  constructor
  · rintro ⟨m, n, first, second, number⟩
    rcases first with digit | ⟨plus, _⟩
    · obtain rfl := digit.unique second
      exact ⟨m, digit, by omega⟩
    · exact absurd plus second.ne_plus
  · rintro ⟨n, digit, number⟩
    exact ⟨n, n, .inl digit, digit, by omega⟩

/-- A short text spells what it spells with every character doubled. -/
theorem spells_doubled_iff {y z : Char} :
    Spells LeadingDigit [x, y, z] color ↔ Spells LeadingDigit [x, x, y, y, z, z] color := by
  constructor
  · intro spells
    cases spells with
    | three red green blue =>
        exact .six (pair_self_iff.2 red) (pair_self_iff.2 green) (pair_self_iff.2 blue)
  · intro spells
    cases spells with
    | six red green blue =>
        exact .three (pair_self_iff.1 red) (pair_self_iff.1 green) (pair_self_iff.1 blue)

/-- So many digits are less than this power of sixteen. -/
theorem hexNumber?_lt (read : hexNumber? cs = some n) : n < 16 ^ cs.length := by
  -- By induction on the digits that are left, for any number read so far.
  have onwards : ∀ (ds : List Char) (k : Nat),
      ds.foldlM (fun n c => (hexDigit? c).map (16 * n + ·)) k = some n → n < (k + 1) * 16 ^ ds.length := by
    intro ds
    induction ds with
    | nil =>
        intro k none
        cases none
        simp
    | cons d ds ih =>
        intro k more
        rw [List.foldlM_cons] at more
        obtain ⟨next, here, later⟩ := Option.bind_eq_some_iff.1 more
        obtain ⟨digit, value, rfl⟩ := Option.map_eq_some_iff.1 here
        have small := (hexDigit?_eq_some_iff.1 value).lt
        calc
          n < (16 * k + digit + 1) * 16 ^ ds.length := ih _ later
          _ ≤ 16 * (k + 1) * 16 ^ ds.length := Nat.mul_le_mul_right _ (by omega)
          _ = (k + 1) * 16 ^ (d :: ds).length := by rw [List.length_cons, pow_succ]; ring
  have whole := onwards cs 0 read
  rwa [zero_add, one_mul] at whole

end Digits

/-! ### Whole texts -/

/-- A text with a mark in front if it had none, and without its mark if it had one. -/
def turnMark : List Char → List Char
  | '#' :: rest => rest
  | cs => '#' :: cs

/-- What a text is printed as once it has been read. -/
def normalForm (s : String) : Except Fault String :=
  (ofHex s).map toHex

/-- The digits that colours are written in. -/
def capitals : List Char :=
  "0123456789ABCDEF".toList

/-- Two characters write a channel in capital digits. -/
def Capitals (a b : Char) (channel : UInt8) : Prop :=
  ∃ m n, capitals[m]? = some a ∧ capitals[n]? = some b ∧ channel.toNat = 16 * m + n

theorem capitals_getElem? : ∀ n < 16, capitals[n]? = some (hexChar n) := by
  decide

section Texts

variable {s t : String} {body mark : List Char} {color : Color}

/-- What spells a colour is read, with a mark and without one. -/
theorem ofHex_of_spells (known : mark = [] ∨ mark = ['#']) (spells : Spells LeadingDigit body color) :
    ofHex (String.ofList (mark ++ body)) = .ok color := by
  have denotes : Denotes LeadingDigit (String.ofList (mark ++ body)) color := by
    refine ⟨[], mark, body, [], ?_, List.forall_mem_nil _, List.forall_mem_nil _, known, spells⟩
    rw [String.toList_ofList, List.nil_append, List.append_nil]
  exact ofHex_eq_ok_iff_spells.2 (denotes.spells fun _ _ leading => leading)

theorem ofHex_of_toLower (same : s.toList.map Char.toLower = t.toList.map Char.toLower)
    (read : ofHex s = .ok color) : ofHex t = .ok color := by
  rw [ofHex_eq_ok_iff_spells] at read ⊢
  apply spells_of_toLower _ read
  rw [← afterMark_map_toLower, ← afterMark_map_toLower, ← Text.trim_map_toLower, ← Text.trim_map_toLower,
    same]

theorem ofHex_turnMark (read : ofHex s = .ok color) :
    ofHex (String.ofList (turnMark (Text.trim s.toList))) = .ok color := by
  rw [ofHex_eq_ok_iff_spells] at read
  generalize Text.trim s.toList = cs at read
  unfold turnMark
  split
  case h_1 rest =>
    have bare : ofHex (String.ofList ([] ++ rest)) = .ok color := ofHex_of_spells (.inl rfl) read
    exact bare
  case h_2 unmarked =>
    have same : afterMark cs = cs := by
      unfold afterMark
      split
      case h_1 rest => exact absurd rfl (unmarked rest)
      case h_2 => rfl
    rw [same] at read
    have marked : ofHex (String.ofList (['#'] ++ cs)) = .ok color := ofHex_of_spells (.inr rfl) read
    exact marked

/-- Behind a mark, a text that ends in no white space is read as it stands. -/
theorem ofHex_marked_iff (some_char : body ≠ []) (solid : ∀ c ∈ body.getLast?, Text.isBlank c = false) :
    ofHex (String.ofList ('#' :: body)) = .ok color ↔ Spells LeadingDigit body color := by
  have mark : Text.isBlank '#' = false := by decide
  have whole : Text.trim ([] ++ ('#' :: body) ++ []) = '#' :: body := by
    apply Text.trim_eq (List.cons_ne_nil _ _) (List.forall_mem_nil _) (List.forall_mem_nil _)
    · intro c first
      rw [← Option.some.inj first, mark]
    · rw [List.getLast?_cons_of_ne_nil some_char]
      exact solid
  rw [List.nil_append, List.append_nil] at whole
  rw [ofHex_eq_ok_iff_spells, String.toList_ofList, whole]
  rfl

theorem toHex_capitals (color : Color) : ∃ a a' b b' c c',
    color.toHex.toList = ['#', a, a', b, b', c, c'] ∧ Capitals a a' color.red ∧
      Capitals b b' color.green ∧ Capitals c c' color.blue := by
  have channel : ∀ n : UInt8, ∃ a b, channelText n = [a, b] ∧ Capitals a b n := by
    intro n
    obtain ⟨i, i_lt, j, j_lt, text, number⟩ := exists_channelText n
    exact ⟨_, _, text, i, j, capitals_getElem? i i_lt, capitals_getElem? j j_lt, number.symm⟩
  obtain ⟨a, a', red, first⟩ := channel color.red
  obtain ⟨b, b', green, second⟩ := channel color.green
  obtain ⟨c, c', blue, third⟩ := channel color.blue
  refine ⟨a, a', b, b', c, c', ?_, first, second, third⟩
  rw [toHex, String.toList_ofList, red, green, blue]
  rfl

theorem normalForm_eq_ok_iff : normalForm s = .ok t ↔ ∃ color, ofHex s = .ok color ∧ color.toHex = t :=
  map_eq_ok_iff

end Texts

/-- How colours are written and read. -/
structure Spellings : Prop where
  printed : ∀ color : Color, ∃ a a' b b' c c', color.toHex.toList = ['#', a, a', b, b', c, c'] ∧
    Capitals a a' color.red ∧ Capitals b b' color.green ∧ Capitals c c' color.blue
  reread : ∀ color : Color, ofHex color.toHex = .ok color
  anyCase : ∀ (s t : String) (color : Color), s.toList.map Char.toLower = t.toList.map Char.toLower →
    (ofHex s = .ok color ↔ ofHex t = .ok color)
  anySpace : ∀ (before : List Char) (s : String) (after : List Char), (∀ c ∈ before, Text.isBlank c) →
    (∀ c ∈ after, Text.isBlank c) → ofHex (String.ofList (before ++ s.toList ++ after)) = ofHex s
  anyMark : ∀ (s : String) (color : Color), ofHex s = .ok color →
    ofHex (String.ofList (turnMark (Text.trim s.toList))) = .ok color
  /-- A normal form is its own. -/
  normal : ∀ s t : String, normalForm s = .ok t → normalForm t = .ok t
  /-- Texts have the same normal form if they are read as the same colour. -/
  normal_iff : ∀ s t u : String, normalForm s = .ok u → (normalForm t = .ok u ↔ ofHex t = ofHex s)
  doubled : ∀ (x y z : Char) (color : Color), Text.isBlank z = false →
    (ofHex (String.ofList ['#', x, y, z]) = .ok color ↔
      ofHex (String.ofList ['#', x, x, y, y, z, z]) = .ok color)
  /-- The number of up to two digits is an octet, after each of them. -/
  fits : ∀ (cs : List Char) (n : Nat), cs.length ≤ 2 → hexNumber? cs = some n → n < 256
  /-- So is a digit that stands for two. -/
  fits_single : ∀ (a : Char) (n : Nat), channel [a] = .ok n → 17 * n < 256

/-- Colours are read from all of their spellings, and are printed as one of them. -/
theorem ofHex_spellings : Spellings where
  printed := toHex_capitals
  reread := ofHex_toHex
  anyCase := fun s t color same => ⟨ofHex_of_toLower same, ofHex_of_toLower same.symm⟩
  anySpace := by
    intro before s after blank blank'
    rw [ofHex, String.toList_ofList, Text.trim_append blank blank']
    rfl
  anyMark := fun s color => ofHex_turnMark
  normal := by
    intro s t done
    obtain ⟨color, _, rfl⟩ := normalForm_eq_ok_iff.1 done
    exact normalForm_eq_ok_iff.2 ⟨color, ofHex_toHex color, rfl⟩
  normal_iff := by
    intro s t u done
    obtain ⟨color, read, rfl⟩ := normalForm_eq_ok_iff.1 done
    rw [normalForm_eq_ok_iff, read]
    constructor
    · rintro ⟨color', read', same⟩
      have reread := ofHex_toHex color'
      rw [same, ofHex_toHex] at reread
      rw [read', reread]
    · intro same
      exact ⟨color, same, rfl⟩
  doubled := by
    intro x y z color solid
    have short : ∀ c ∈ [x, y, z].getLast?, Text.isBlank c = false := by simpa using solid
    have long : ∀ c ∈ [x, x, y, y, z, z].getLast?, Text.isBlank c = false := by simpa using solid
    rw [ofHex_marked_iff (List.cons_ne_nil _ _) short, ofHex_marked_iff (List.cons_ne_nil _ _) long,
      spells_doubled_iff]
  fits := by
    intro cs n short read
    exact (hexNumber?_lt read).trans_le (Nat.pow_le_pow_right (by decide) short)
  fits_single := by
    intro a n read
    have small := (channel_single_iff.1 read).lt
    omega

end Color

end Emblem
