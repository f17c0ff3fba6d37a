/-
Module: Emblem.Proofs.ColorGrammar
Purpose: Which texts are colours. Six or three hexadecimal digits are, behind a mark or without one and
  with white space around; besides them, a plus sign passes for the first of two digits.
Main exports: Text.exists_trim, Text.trim_eq, Color.Digit, Color.LeadingDigit, Color.Spells, Color.Denotes,
  Color.ofDigits_eq_ok_iff, Color.ofHex_denotes, Color.ofHex_plusSigns
-/
import Emblem.Color
import Emblem.Proofs.Outcome

namespace Emblem

/-! ### White space around a text -/

namespace Text

variable {before cs after : List Char}

theorem dropWhile_isBlank_append (blank : ∀ c ∈ before, isBlank c)
    (solid : ∀ c ∈ cs.head?, isBlank c = false) : (before ++ cs).dropWhile isBlank = cs := by
  rw [List.dropWhile_append_of_pos blank]
  cases cs with
  | nil => rfl
  | cons c rest => rw [List.dropWhile_cons_of_neg (by simp [solid c rfl])]

/-- A text without white space at its ends is all that is left of it with white space around. -/
theorem trim_eq (some_char : cs ≠ []) (blank : ∀ c ∈ before, isBlank c) (blank' : ∀ c ∈ after, isBlank c)
    (solid : ∀ c ∈ cs.head?, isBlank c = false) (solid' : ∀ c ∈ cs.getLast?, isBlank c = false) :
    trim (before ++ cs ++ after) = cs := by
  have start : (before ++ (cs ++ after)).dropWhile isBlank = cs ++ after := by
    apply dropWhile_isBlank_append blank
    rw [List.head?_append_of_ne_nil _ some_char]
    exact solid
  have stop : (after.reverse ++ cs.reverse).dropWhile isBlank = cs.reverse := by
    apply dropWhile_isBlank_append
    · intro c member
      exact blank' c (List.mem_reverse.1 member)
    · rw [List.head?_reverse]
      exact solid'
  rw [trim, List.append_assoc, start, List.reverse_append, stop, List.reverse_reverse]

/-- Trimming takes nothing but white space away. -/
theorem exists_trim (cs : List Char) : ∃ before after, cs = before ++ trim cs ++ after ∧
    (∀ c ∈ before, isBlank c) ∧ ∀ c ∈ after, isBlank c := by
  have dropped : ∀ ds : List Char, ∀ c ∈ ds.takeWhile isBlank, isBlank c :=
    fun ds c member => List.all_eq_true.1 List.all_takeWhile c member
  refine ⟨cs.takeWhile isBlank, ((cs.dropWhile isBlank).reverse.takeWhile isBlank).reverse, ?_,
    dropped cs, ?_⟩
  · rw [trim, List.append_assoc, ← List.reverse_append, List.takeWhile_append_dropWhile,
      List.reverse_reverse, List.takeWhile_append_dropWhile]
  · intro c member
    exact dropped _ c (List.mem_reverse.1 member)

end Text

namespace Color

/-! ### The grammar -/

/-- A character is the hexadecimal digit with this value, in either case. -/
def Digit (c : Char) (n : Nat) : Prop :=
  "0123456789abcdef".toList[n]? = some c ∨ "0123456789ABCDEF".toList[n]? = some c

instance (c : Char) (n : Nat) : Decidable (Digit c n) :=
  inferInstanceAs (Decidable (_ ∨ _))

/-- A character passes for the first of two digits: it is a digit, or a plus sign, which counts as
zero. -/
def LeadingDigit (c : Char) (n : Nat) : Prop :=
  Digit c n ∨ (c = '+' ∧ n = 0)

/-- Two characters are a channel, of which the first one is read as `leading` says. -/
def Pair (leading : Char → Nat → Prop) (a b : Char) (channel : UInt8) : Prop :=
  ∃ m n, leading a m ∧ Digit b n ∧ channel.toNat = 16 * m + n

/-- One digit is a channel: it stands for two equal ones. -/
def Single (a : Char) (channel : UInt8) : Prop :=
  ∃ n, Digit a n ∧ channel.toNat = 17 * n

/-- Six or three characters are a colour, the first ones of pairs being read as `leading` says. -/
inductive Spells (leading : Char → Nat → Prop) : List Char → Color → Prop where
  | six {a a' b b' c c' : Char} {color : Color} (red : Pair leading a a' color.red)
      (green : Pair leading b b' color.green) (blue : Pair leading c c' color.blue) :
      Spells leading [a, a', b, b', c, c'] color
  | three {a b c : Char} {color : Color} (red : Single a color.red) (green : Single b color.green)
      (blue : Single c color.blue) : Spells leading [a, b, c] color

/-- A text is a colour: its characters stand behind at most one mark, with white space around. -/
def Denotes (leading : Char → Nat → Prop) (s : String) (color : Color) : Prop :=
  ∃ before mark body after, s.toList = before ++ (mark ++ body) ++ after ∧
    (∀ c ∈ before, Text.isBlank c) ∧ (∀ c ∈ after, Text.isBlank c) ∧ (mark = [] ∨ mark = ['#']) ∧
    Spells leading body color

/-! ### Digits -/

section Digits

variable {a b c : Char} {n : Nat}

theorem Digit.lt (digit : Digit c n) : n < 16 := by
  rcases digit with lower | upper
  · exact (List.getElem?_eq_some_iff.1 lower).1
  · exact (List.getElem?_eq_some_iff.1 upper).1

theorem LeadingDigit.lt (leading : LeadingDigit c n) : n < 16 := by
  rcases leading with digit | ⟨_, rfl⟩
  · exact digit.lt
  · decide

/-- What passes for a digit is no white space and no mark, and is written with one octet. -/
theorem LeadingDigit.solid (leading : LeadingDigit c n) :
    Text.isBlank c = false ∧ c ≠ '#' ∧ c.toNat < 128 := by
  have chars : "0123456789abcdef0123456789ABCDEF+".toList.all
      (fun d => !Text.isBlank d && d != '#' && d.toNat < 128) := by decide
  have member : c ∈ "0123456789abcdef0123456789ABCDEF+".toList := by
    rcases leading with (lower | upper) | ⟨rfl, _⟩
    · exact List.mem_append_left "0123456789ABCDEF+".toList (List.mem_of_getElem? lower)
    · exact List.mem_append_right "0123456789abcdef".toList
        (List.mem_append_left ['+'] (List.mem_of_getElem? upper))
    · decide
  have here := List.all_eq_true.1 chars c member
  simpa [and_assoc] using here

theorem Digit.ne_plus (digit : Digit c n) : c ≠ '+' := by
  have chars : '+' ∉ "0123456789abcdef".toList ∧ '+' ∉ "0123456789ABCDEF".toList := by decide
  rintro rfl
  rcases digit with lower | upper
  · exact chars.1 (List.mem_of_getElem? lower)
  · exact chars.2 (List.mem_of_getElem? upper)

/-- The digits that are read are those of the grammar, with their values. -/
theorem hexDigit?_eq_some_iff : hexDigit? c = some n ↔ Digit c n := by
  constructor
  · intro read
    have small : c.toNat < 128 := by
      have below : ∀ hi : Char, hi.toNat < 128 → c ≤ hi → c.toNat < 128 :=
        fun hi ascii le => Nat.lt_of_le_of_lt le ascii
      unfold hexDigit? at read
      split at read
      case isTrue decimal => exact below '9' (by decide) decimal.2
      case isFalse =>
        split at read
        case isTrue lower => exact below 'f' (by decide) lower.2
        case isFalse =>
          split at read
          case isTrue upper => exact below 'F' (by decide) upper.2
          case isFalse => cases read
    have table : ∀ k < 128, ∀ n ∈ hexDigit? (Char.ofNat k), Digit (Char.ofNat k) n := by decide
    have digit := table c.toNat small n
    rw [Char.ofNat_toNat] at digit
    exact digit read
  · intro digit
    have table : ∀ n < 16, ("0123456789abcdef".toList[n]?.bind hexDigit? = some n) ∧
        "0123456789ABCDEF".toList[n]?.bind hexDigit? = some n := by decide
    obtain ⟨ofLower, ofUpper⟩ := table n digit.lt
    rcases digit with lower | upper
    · rw [lower] at ofLower
      exact ofLower
    · rw [upper] at ofUpper
      exact ofUpper

/-- Two characters are read as a channel, the first of which may be a plus sign. -/
theorem channel_pair_iff : channel [a, b] = .ok n ↔
    ∃ m k, LeadingDigit a m ∧ Digit b k ∧ n = 16 * m + k := by
  by_cases plus : a = '+'
  · subst plus
    have number : channel ['+', b] = .ok n ↔ hexDigit? b = some n := by
      cases digit : hexDigit? b <;> simp [channel, hexNumber?, digit]
    rw [number, hexDigit?_eq_some_iff]
    constructor
    · intro digit
      exact ⟨0, n, .inr ⟨rfl, rfl⟩, digit, by omega⟩
    · rintro ⟨m, k, leading, digit, rfl⟩
      rcases leading with impossible | ⟨_, rfl⟩
      · exact absurd rfl impossible.ne_plus
      · simpa using digit
  · have number : channel [a, b] = .ok n ↔
        ∃ m k, hexDigit? a = some m ∧ hexDigit? b = some k ∧ 16 * m + k = n := by
      cases first : hexDigit? a <;> cases second : hexDigit? b <;>
        simp [channel, hexNumber?, plus, first, second]
    rw [number]
    constructor
    · rintro ⟨m, k, first, second, rfl⟩
      exact ⟨m, k, .inl (hexDigit?_eq_some_iff.1 first), hexDigit?_eq_some_iff.1 second, rfl⟩
    · rintro ⟨m, k, leading, second, rfl⟩
      rcases leading with first | ⟨impossible, _⟩
      · exact ⟨m, k, hexDigit?_eq_some_iff.2 first, hexDigit?_eq_some_iff.2 second, rfl⟩
      · exact absurd impossible plus

/-- A plus sign alone is no channel, so one character must be a digit. -/
theorem channel_single_iff : channel [a] = .ok n ↔ Digit a n := by
  rw [← hexDigit?_eq_some_iff]
  cases digit : hexDigit? a <;> simp [channel, hexNumber?, digit]

/-- Two digits are less than an octet, so nothing of a channel is lost. -/
theorem pair_of_channel (read : channel [a, b] = .ok n) : Pair LeadingDigit a b (.ofNat n) := by
  obtain ⟨m, k, first, second, rfl⟩ := channel_pair_iff.1 read
  have fits : 16 * m + k < 256 := by
    have high := first.lt
    have low := second.lt
    omega
  exact ⟨m, k, first, second, UInt8.toNat_ofNat_of_lt fits⟩

theorem single_of_channel (read : channel [a] = .ok n) : Single a (.ofNat (17 * n)) := by
  have digit := channel_single_iff.1 read
  have fits : 17 * n < 256 := by
    have small := digit.lt
    omega
  exact ⟨n, digit, UInt8.toNat_ofNat_of_lt fits⟩

end Digits

/-! ### Colours -/

section Colors

variable {color : Color} {cs : List Char}

theorem ofChannels_toNat (color : Color) :
    ofChannels color.red.toNat color.green.toNat color.blue.toNat = color := by
  simp [ofChannels]

/-- What is read as a colour is what spells one. -/
theorem ofDigits_eq_ok_iff : ofDigits cs = .ok color ↔ Spells LeadingDigit cs color := by
  constructor
  · intro read
    unfold ofDigits at read
    split at read
    case h_1 =>
      obtain ⟨r, red, read⟩ := bind_eq_ok_iff.1 read
      obtain ⟨g, green, read⟩ := bind_eq_ok_iff.1 read
      obtain ⟨b, blue, read⟩ := bind_eq_ok_iff.1 read
      cases read
      exact .six (pair_of_channel red) (pair_of_channel green) (pair_of_channel blue)
    case h_2 =>
      obtain ⟨r, red, read⟩ := bind_eq_ok_iff.1 read
      obtain ⟨g, green, read⟩ := bind_eq_ok_iff.1 read
      obtain ⟨b, blue, read⟩ := bind_eq_ok_iff.1 read
      cases read
      exact .three (single_of_channel red) (single_of_channel green) (single_of_channel blue)
    case h_3 => cases read
  · intro spells
    cases spells with
    | six red green blue =>
        rw [ofDigits, channel_pair_iff.2 red, channel_pair_iff.2 green, channel_pair_iff.2 blue]
        exact congrArg Except.ok color.ofChannels_toNat
    | three red green blue =>
        obtain ⟨r, digit, red⟩ := red
        obtain ⟨g, digit', green⟩ := green
        obtain ⟨b, digit'', blue⟩ := blue
        rw [ofDigits, channel_single_iff.2 digit, channel_single_iff.2 digit',
          channel_single_iff.2 digit'']
        have whole := color.ofChannels_toNat
        rw [red, green, blue] at whole
        exact congrArg Except.ok whole

/-- What spells a colour is made of digits and of what passes for them. -/
theorem Spells.exists_digit {leading : Char → Nat → Prop} (spells : Spells leading cs color) :
    ∀ c ∈ cs, ∃ n, leading c n ∨ Digit c n := by
  have pair : ∀ {a b : Char} {channel : UInt8}, Pair leading a b channel →
      (∃ n, leading a n ∨ Digit a n) ∧ ∃ n, leading b n ∨ Digit b n := by
    rintro a b channel ⟨m, n, first, second, _⟩
    exact ⟨⟨m, .inl first⟩, n, .inr second⟩
  have single : ∀ {a : Char} {channel : UInt8}, Single a channel → ∃ n, leading a n ∨ Digit a n := by
    rintro a channel ⟨n, digit, _⟩
    exact ⟨n, .inr digit⟩
  cases spells with
  | six red green blue =>
      simpa using ⟨(pair red).1, (pair red).2, (pair green).1, (pair green).2, (pair blue).1,
        (pair blue).2⟩
  | three red green blue => simpa using ⟨single red, single green, single blue⟩

/-- A text spells the same colour if all that it has first in pairs is read as before. -/
theorem Spells.mono {leading leading' : Char → Nat → Prop}
    (same : ∀ c ∈ cs, ∀ n, leading c n → leading' c n) (spells : Spells leading cs color) :
    Spells leading' cs color := by
  have pair : ∀ {a b : Char} {channel : UInt8}, a ∈ cs → Pair leading a b channel →
      Pair leading' a b channel := by
    rintro a b channel member ⟨m, n, first, second, number⟩
    exact ⟨m, n, same a member m first, second, number⟩
  cases spells with
  | six red green blue =>
      exact .six (pair (by simp) red) (pair (by simp) green) (pair (by simp) blue)
  | three red green blue => exact .three red green blue

/-- Without plus signs, what passes for digits is digits. -/
theorem spells_digit_iff :
    Spells Digit cs color ↔ Spells LeadingDigit cs color ∧ '+' ∉ cs := by
  constructor
  · intro spells
    refine ⟨spells.mono fun c _ n digit => .inl digit, ?_⟩
    intro member
    obtain ⟨n, digit⟩ := spells.exists_digit '+' member
    exact (or_self_iff.1 digit).ne_plus rfl
  · rintro ⟨spells, noPlus⟩
    apply spells.mono
    rintro c member n (digit | ⟨rfl, _⟩)
    · exact digit
    · exact absurd member noPlus

theorem Spells.solid (spells : Spells LeadingDigit cs color) :
    ∀ c ∈ cs, Text.isBlank c = false ∧ c ≠ '#' ∧ c.toNat < 128 := by
  intro c member
  obtain ⟨n, leading | digit⟩ := spells.exists_digit c member
  · exact leading.solid
  · exact LeadingDigit.solid (.inl digit)

theorem Spells.ne_nil {leading : Char → Nat → Prop} (spells : Spells leading cs color) :
    cs ≠ [] := by
  cases spells <;> simp

end Colors

/-! ### Texts -/

section Texts

variable {s : String} {color : Color}

theorem exists_mark (cs : List Char) :
    ∃ mark, cs = mark ++ afterMark cs ∧ (mark = [] ∨ mark = ['#']) := by
  unfold afterMark
  split
  · exact ⟨['#'], rfl, .inr rfl⟩
  · exact ⟨[], rfl, .inl rfl⟩

theorem afterMark_append {mark body : List Char} (known : mark = [] ∨ mark = ['#'])
    (unmarked : '#' ∉ body) : afterMark (mark ++ body) = body := by
  rcases known with rfl | rfl
  · unfold afterMark
    split
    case h_1 same =>
      rw [List.nil_append] at same
      exact absurd (same ▸ List.mem_cons_self) unmarked
    case h_2 => rfl
  · rfl

/-- A text is read as a colour if this is what it spells between white space and behind a mark. -/
theorem ofHex_eq_ok_iff_spells :
    ofHex s = .ok color ↔ Spells LeadingDigit (afterMark (Text.trim s.toList)) color := by
  unfold ofHex
  dsimp only
  split
  case isTrue => exact ofDigits_eq_ok_iff
  case isFalse other =>
    constructor
    · intro impossible
      cases impossible
    · intro spells
      refine absurd ?_ other
      rw [List.all_eq_true]
      intro c member
      exact decide_eq_true (spells.solid c member).2.2

/-- What is left of a text that denotes a colour is what spells this colour. -/
theorem Denotes.spells {leading : Char → Nat → Prop}
    (passes : ∀ c n, leading c n → LeadingDigit c n) (denotes : Denotes leading s color) :
    Spells leading (afterMark (Text.trim s.toList)) color := by
  obtain ⟨before, mark, body, after, whole, blank, blank', known, spells⟩ := denotes
  have solid := (spells.mono fun c _ n => passes c n).solid
  have unmarked : '#' ∉ body := fun member => (solid '#' member).2.1 rfl
  have noBlank : ∀ c ∈ mark ++ body, Text.isBlank c = false := by
    intro c member
    rcases List.mem_append.1 member with inMark | inBody
    · rcases known with rfl | rfl
      · cases inMark
      · rw [List.mem_singleton.1 inMark]
        decide
    · exact (solid c inBody).1
  have trimmed : Text.trim s.toList = mark ++ body := by
    rw [whole]
    exact Text.trim_eq (List.append_ne_nil_of_right_ne_nil mark spells.ne_nil) blank blank'
      (fun c first => noBlank c (List.mem_of_head? first))
      (fun c last => noBlank c (List.mem_of_getLast? last))
  rw [trimmed, afterMark_append known unmarked]
  exact spells

theorem denotes_of_spells {leading : Char → Nat → Prop}
    (spells : Spells leading (afterMark (Text.trim s.toList)) color) : Denotes leading s color := by
  obtain ⟨before, after, whole, blank, blank'⟩ := Text.exists_trim s.toList
  obtain ⟨mark, marked, known⟩ := exists_mark (Text.trim s.toList)
  rw [marked] at whole
  exact ⟨before, mark, _, after, whole, blank, blank', known, spells⟩

/-- What has digits alone for a colour has no plus sign anywhere. -/
theorem Denotes.plus_notMem (denotes : Denotes Digit s color) : '+' ∉ s.toList := by
  obtain ⟨before, mark, body, after, whole, blank, trailing, known, spells⟩ := denotes
  have solid : Text.isBlank '+' = false := by decide
  rw [whole, List.mem_append, List.mem_append, List.mem_append]
  rintro ((inBefore | inMark | inBody) | inAfter)
  · rw [blank '+' inBefore] at solid
    cases solid
  · rcases known with rfl | rfl <;> simp at inMark
  · exact (spells_digit_iff.1 spells).2 inBody
  · rw [trailing '+' inAfter] at solid
    cases solid

theorem mem_of_mem_afterMark {c : Char} (member : c ∈ afterMark (Text.trim s.toList)) :
    c ∈ s.toList := by
  obtain ⟨before, after, whole, _⟩ := Text.exists_trim s.toList
  obtain ⟨mark, marked, _⟩ := exists_mark (Text.trim s.toList)
  rw [whole, marked]
  exact List.mem_append_left after (List.mem_append_right before (List.mem_append_right mark member))

/-- A text is read as a colour just if it denotes this colour, a plus sign passing for the first of two
digits. Those with digits alone are the ones among them that have no plus sign. -/
theorem ofHex_denotes (s : String) (color : Color) :
    (ofHex s = .ok color ↔ Denotes LeadingDigit s color) ∧
      (Denotes Digit s color ↔ ofHex s = .ok color ∧ '+' ∉ s.toList) := by
  rw [ofHex_eq_ok_iff_spells]
  constructor
  · exact ⟨denotes_of_spells, Denotes.spells fun _ _ leading => leading⟩
  · constructor
    · intro denotes
      have spells := denotes.spells fun _ _ digit => .inl digit
      exact ⟨(spells_digit_iff.1 spells).1, denotes.plus_notMem⟩
    · rintro ⟨spells, noPlus⟩
      have noPlus' : '+' ∉ afterMark (Text.trim s.toList) := fun member =>
        noPlus (mem_of_mem_afterMark member)
      exact denotes_of_spells (spells_digit_iff.2 ⟨spells, noPlus'⟩)

/-- Three pairs whose first character is a plus sign are read as a colour. -/
theorem ofHex_plusSigns : ofHex "+1+2+3" = .ok ⟨1, 2, 3⟩ ∧ ¬∃ color, Denotes Digit "+1+2+3" color := by
  constructor
  · decide
  · rintro ⟨color, denotes⟩
    exact denotes.plus_notMem (by decide)

end Texts

end Color

end Emblem
