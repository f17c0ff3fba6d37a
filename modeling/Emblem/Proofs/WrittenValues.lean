/-
Module: Emblem.Proofs.WrittenValues
Purpose: Documents that were written are read. What a reader takes from written parts of a document, it
  takes from texts, numbers, lists, records and variants that are written from these parts.
Main exports: Carries, carries_text, carries_natural, carries_float, carries_list, carries_pair,
  carries_record, carries_constant, carries_variant
-/
import Emblem.Json.Value
import Emblem.Proofs.ObjectTexts
import Emblem.Proofs.SpelledFloats

namespace Emblem.Json

open Number (reread)
open Reader (Reads)
open Text (encode)

variable {α β σ : Type}

/-! ### Texts as octets -/

theorem encode_ofList {cs : List Char} (ascii : ∀ c ∈ cs, c.toNat < 128) :
    encode (String.ofList cs) = cs.map octet := by
  have bytes : (String.ofList cs).toUTF8 = (cs.map octet).toByteArray := by
    rw [String.toUTF8_eq_toByteArray, String.toByteArray_ofList]
    induction cs with
    | nil => rfl
    | cons c cs ih =>
        have small : c.toNat < 128 := ascii c List.mem_cons_self
        have size : c.utf8Size = 1 := by
          rw [Char.utf8Size_eq_one_iff, UInt32.le_iff_toNat_le]
          exact Nat.le_of_lt_succ small
        have here : c.val.toUInt8 = octet c := rfl
        rw [List.utf8Encode_cons, List.utf8Encode_singleton, String.utf8EncodeChar_eq_singleton size,
          ih fun d member => ascii d (List.mem_cons_of_mem c member), here, ← List.toByteArray_append]
        rfl
  rw [encode, bytes, List.data_toByteArray]

theorem decode?_encode (s : String) : Text.decode? (encode s) = some s := by
  have same : (⟨(encode s).toArray⟩ : ByteArray) = s.toUTF8 := rfl
  have valid : s.toUTF8.IsValidUTF8 := s.isValidUTF8
  rw [Text.decode?, same, String.fromUTF8?, dif_pos valid]
  rfl

/-- Parts with commas between them. -/
def joined : List (List UInt8) → List UInt8
  | [] => []
  | part :: parts => part ++ parts.flatMap fun part => octet ',' :: part

theorem encode_intercalate (parts : List String) :
    encode (",".intercalate parts) = joined (parts.map encode) := by
  have comma : encode "," = [octet ','] := by decide +kernel
  induction parts with
  | nil => rfl
  | cons part parts ih =>
      cases parts with
      | nil => simp [joined]
      | cons next rest =>
          rw [String.intercalate_cons_cons, Text.encode_append, Text.encode_append, comma, ih]
          simp [joined]

/-! ### Texts -/

/-- A character that stands for itself in a string. -/
structure IsPlain (c : Char) : Prop where
  ascii : c.toNat < 128
  visible : 0x20 ≤ c.toNat
  noQuote : c ≠ '"'
  noSlash : c ≠ '\\'

instance (c : Char) : Decidable (IsPlain c) :=
  decidable_of_iff (c.toNat < 128 ∧ 0x20 ≤ c.toNat ∧ c ≠ '"' ∧ c ≠ '\\')
    ⟨fun h => ⟨h.1, h.2.1, h.2.2.1, h.2.2.2⟩, fun h => ⟨h.ascii, h.visible, h.noQuote, h.noSlash⟩⟩

/-- A text that is written as it is, in quotes. -/
def IsPlainText (s : String) : Prop :=
  ∀ c ∈ s.toList, IsPlain c

-- Not by the finitely many characters there are, which is the instance that would be found.
instance (s : String) : Decidable (IsPlainText s) :=
  List.decidableBAll _ _

section Texts

variable {c : Char} {s : String}

theorem IsPlain.escapeChar (plain : IsPlain c) : escapeChar c = [c] := by
  have escaped : ∀ p ∈ escapeLetters, p.1 = '"' ∨ p.1 = '\\' ∨ p.1.toNat < 0x20 := by decide
  have noLetter : escapeLetters.lookup c = none := by
    rw [List.lookup_eq_none_iff]
    intro p member
    rw [bne_iff_ne]
    rintro rfl
    rcases escaped p member with quote | slash | low
    · exact plain.noQuote quote
    · exact plain.noSlash slash
    · exact absurd plain.visible (not_le.2 low)
  unfold Json.escapeChar
  rw [noLetter, if_neg (not_lt.2 plain.visible)]

theorem quote_of_plain (plain : IsPlainText s) :
    quote s = String.ofList ('"' :: s.toList ++ ['"']) := by
  have same : ∀ cs : List Char, (∀ c ∈ cs, IsPlain c) → cs.flatMap escapeChar = cs := by
    intro cs plain
    induction cs with
    | nil => rfl
    | cons c cs ih =>
        rw [List.flatMap_cons, (plain c List.mem_cons_self).escapeChar,
          ih fun d member => plain d (List.mem_cons_of_mem c member)]
        rfl
  rw [quote, same _ plain]

theorem encode_quote (plain : IsPlainText s) :
    encode (quote s) = octet '"' :: (s.toList.map octet ++ [octet '"']) := by
  rw [quote_of_plain plain, encode_ofList]
  · simp
  · intro c member
    simp only [List.cons_append, List.mem_cons, List.mem_append, List.not_mem_nil, or_false] at member
    rcases member with rfl | inside | rfl
    · decide
    · exact (plain c inside).ascii
    · decide

theorem octet_ne {c d : Char} (small : c.toNat < 128) (small' : d.toNat < 128) (different : c ≠ d) :
    octet c ≠ octet d := by
  intro same
  have number := congrArg UInt8.toNat same
  rw [toNat_octet (by omega), toNat_octet (by omega)] at number
  exact different (Char.toNat_inj.1 number)

theorem reads_stringStep (plain : IsPlain c) (seen rest : List UInt8) :
    (stringStep seen).Reads (octet c :: rest) (.inl (octet c :: seen)) rest := by
  have next : nextInString.Reads (octet c :: rest) (octet c) rest := (reads_next _ _).bind (.pure _ _)
  have visible : ¬octet c < 0x20 := by
    rw [UInt8.lt_iff_toNat_lt, toNat_octet (by have := plain.ascii; omega)]
    exact not_lt.2 plain.visible
  refine next.bind ?_
  rw [if_neg (octet_ne plain.ascii (by decide) plain.noQuote),
    if_neg (octet_ne plain.ascii (by decide) plain.noSlash), if_neg visible]
  exact .pure _ _

theorem walks_stringStep {cs : List Char} (plain : ∀ c ∈ cs, IsPlain c) (seen rest : List UInt8) :
    Walks stringStep seen (cs.map octet ++ rest) ((cs.map octet).reverse ++ seen) rest := by
  induction cs generalizing seen with
  | nil => exact .refl
  | cons c cs ih =>
      have more := ih (fun d member => plain d (List.mem_cons_of_mem c member)) (octet c :: seen)
      rw [List.map_cons, List.reverse_cons, List.append_assoc]
      exact .round (reads_stringStep (plain c List.mem_cons_self) _ _) (Nat.lt_succ_self _) more

/-- Plain characters are taken one by one, up to the closing quote. -/
theorem reads_readString (plain : IsPlainText s) (rest : List UInt8) :
    readString.Reads (s.toList.map octet ++ octet '"' :: rest) s rest := by
  have next : nextInString.Reads (octet '"' :: rest) (octet '"') rest := (reads_next _ _).bind (.pure _ _)
  have last : (stringStep ((s.toList.map octet).reverse ++ [])).Reads (octet '"' :: rest)
      (.inr ((s.toList.map octet).reverse ++ [])) rest := next.bind (.pure _ _)
  have contents : Text.decode? (s.toList.map octet) = some s := by
    have whole := encode_ofList fun c member => (plain c member).ascii
    rw [String.ofList_toList] at whole
    rw [← whole, decode?_encode]
  refine ((walks_stringStep plain [] _).reads last).bind ?_
  rw [List.append_nil, List.reverse_reverse, textOfContents, contents]
  exact .pure _ _

/-- A text of plain characters is read from its quotes. -/
theorem document_quote (plain : IsPlainText s) :
    readText.document (encode (quote s)) = .ok s := by
  rw [encode_quote plain]
  refine document_of_reads ?_ blank_nil
  refine (reads_peekValue blank_nil (by decide)).bind (Reads.settle ?_)
  rw [if_pos rfl]
  exact (reads_discard _ _).bind (reads_readString plain [])

end Texts

/-! ### Values -/

/-- A written value begins with an octet that neither is space nor ends a list. -/
def Begins (octets : List UInt8) : Prop :=
  ∃ b rest, octets = b :: rest ∧ isSpace b = false ∧ b ≠ octet ']'

/-- A reader takes a value from what is written. -/
structure Carries (r : Reader α) (v : Value) (a : α) : Prop where
  document : r.document (encode v.compact) = .ok a
  begins : Begins (encode v.compact)

theorem carries_text {s : String} (plain : IsPlainText s) : Carries readText (.text s) s := by
  have written : encode (Value.compact (.text s)) = encode (quote s) := by
    rw [Value.compact]
  refine ⟨by rw [written, document_quote plain], ?_⟩
  rw [written, encode_quote plain]
  exact ⟨_, _, rfl, by decide, by decide⟩

theorem begins_of_isDigit {c : Char} {cs : List Char} (digit : c.isDigit) :
    Begins ((c :: cs).map octet) := by
  refine ⟨_, _, rfl, isSpace_of_isDigit (isDigit_octet digit), ?_⟩
  intro same
  have first := isDigit_octet digit
  rw [same] at first
  exact absurd first (by decide)

theorem carries_natural {expected : String} {n limit : Nat} (fits : n ≤ limit) (below : limit ≤ significandLimit) :
    Carries (readNatural expected limit) (.natural n) n := by
  have numeral := Number.isNumeral_digits n
  have written : encode (Value.compact (.natural n)) = (Number.digits n).map octet := by
    have text : Value.compact (.natural n) = String.ofList (Number.digits n) := by
      rw [Value.compact]
      exact Nat.toString_eq_ofList_toDigits
    rw [text, encode_ofList]
    intro c member
    have := (bounds_of_isDigit (numeral.2 c member)).2
    omega
  constructor
  · rw [written]
    exact document_of_reads (reads_readNatural fits below) blank_nil
  · rw [written]
    cases shape : Number.digits n with
    | nil => exact absurd shape numeral.1
    | cons c cs =>
        rw [shape] at numeral
        exact begins_of_isDigit (numeral.2 c List.mem_cons_self)

/-- A float is read as the one that it is read back as. -/
theorem carries_float {x y : Float} (read : reread x = some y) : Carries readFloat (.float x) y := by
  obtain ⟨ascii, c, cs, head, first⟩ := Number.exists_head_json read
  have written : encode (Value.compact (.float x)) = (Number.json x).toList.map octet := by
    have whole := encode_ofList ascii
    rw [String.ofList_toList] at whole
    rw [Value.compact, whole]
  constructor
  · rw [written]
    exact document_of_reads (Number.reads_json read) blank_nil
  · rw [written, head]
    rcases first with rfl | digit
    · exact ⟨_, _, rfl, by decide, by decide⟩
    · exact begins_of_isDigit digit

/-! ### Lists -/

section Lists

variable {element : Reader α} {first : Reader α} {second : Reader β} {a : α} {b : β} {v w : Value}
variable {vs : List Value} {as : List α} {space rest : List UInt8}

theorem reads_nextElement_first {octets : List UInt8} (begins : Begins octets) :
    (nextElement true).Reads (octets ++ rest) true (octets ++ rest) := by
  obtain ⟨b, later, rfl, solid, other⟩ := begins
  refine (reads_peekPastSpace blank_nil solid).bind ?_
  dsimp only
  rw [if_neg other]
  exact .pure _ _

theorem reads_nextElement_comma {octets : List UInt8} (blank : Blank space) (begins : Begins octets) :
    (nextElement false).Reads (space ++ octet ',' :: (octets ++ rest)) true (octets ++ rest) := by
  obtain ⟨b, later, rfl, solid, other⟩ := begins
  refine (reads_peekPastSpace blank (by decide)).bind ((reads_discard _ _).bind ?_)
  refine (reads_peekPastSpace blank_nil solid).bind ?_
  dsimp only
  rw [if_neg other]
  exact .pure _ _

theorem reads_nextElement_end (blank : Blank space) (start : Bool) :
    (nextElement start).Reads (space ++ octet ']' :: rest) false (octet ']' :: rest) :=
  (reads_peekPastSpace blank (by decide)).bind (.pure _ _)

theorem reads_closeList (blank : Blank space) : closeList.Reads (space ++ octet ']' :: rest) () rest :=
  (reads_peekPastSpace blank (by decide)).bind (reads_discard _ _)

/-- The elements after the first one, each past its comma. -/
def afterCommas (vs : List Value) : List UInt8 :=
  vs.flatMap fun v => octet ',' :: encode v.compact

theorem closes_afterCommas (vs : List Value) (rest : List UInt8) :
    Closes (afterCommas vs ++ octet ']' :: rest) := by
  cases vs with
  | nil => exact closes_cons (by decide) _
  | cons v vs => exact closes_cons (by decide) _

theorem length_le_afterCommas (vs : List Value) : vs.length ≤ (afterCommas vs).length := by
  induction vs with
  | nil => exact Nat.zero_le _
  | cons v vs ih =>
      unfold afterCommas at ih ⊢
      rw [List.flatMap_cons, List.length_cons, List.length_append, List.length_cons]
      omega

theorem Carries.reads (carries : Carries element v a) (stable : Stable element) {tail : List UInt8}
    (closes : Closes tail) :
    ∃ space, Blank space ∧ element.Reads (encode v.compact ++ tail) a (space ++ tail) := by
  obtain ⟨space, blank, _, reads⟩ := stable.exists_space carries.document
  exact ⟨space, blank, reads tail closes⟩

theorem reads_elementStep_end (blank : Blank space) (seen : List α) :
    (elementStep element seen).Reads (space ++ octet ']' :: rest) (.inr seen.reverse) (octet ']' :: rest) := by
  refine (reads_nextElement_end blank _).bind ?_
  rw [if_neg Bool.false_ne_true]
  exact .pure _ _

/-- As many rounds as there are elements, and one more, take them all. -/
theorem reads_elements (stable : Stable element) (carries : List.Forall₂ (Carries element) vs as)
    {seen : List α} (started : seen.isEmpty = false) {n : Nat} (enough : vs.length < n) (blank : Blank space) :
    (roundsWithin (elementStep element) n seen).Reads (space ++ (afterCommas vs ++ octet ']' :: rest))
      (seen.reverse ++ as) (octet ']' :: rest) := by
  -- On the elements that are left; each round takes a comma and one of them.
  induction carries generalizing seen n space with
  | nil =>
      obtain ⟨n, rfl⟩ : ∃ k, n = k + 1 := ⟨n - 1, by omega⟩
      rw [List.append_nil]
      exact (reads_elementStep_end blank seen).bind (.pure _ _)
  | @cons v a vs as here _ ih =>
      obtain ⟨n, rfl⟩ : ∃ k, n = k + 1 := ⟨n - 1, by omega⟩
      obtain ⟨space', blank', reads⟩ := here.reads stable (closes_afterCommas vs rest)
      have octets : space ++ (afterCommas (v :: vs) ++ octet ']' :: rest) =
          space ++ octet ',' :: (encode v.compact ++ (afterCommas vs ++ octet ']' :: rest)) := by
        simp [afterCommas]
      have step : (elementStep element seen).Reads (space ++ (afterCommas (v :: vs) ++ octet ']' :: rest))
          (.inl (a :: seen)) (space' ++ (afterCommas vs ++ octet ']' :: rest)) := by
        rw [octets]
        unfold elementStep
        rw [started]
        refine (reads_nextElement_comma blank here.begins).bind ?_
        rw [if_pos rfl]
        exact reads.bind (.pure _ _)
      have order : seen.reverse ++ a :: as = (a :: seen).reverse ++ as := by simp
      rw [order]
      exact step.bind (ih rfl (Nat.lt_of_succ_lt_succ enough) blank')

theorem compactElements_eq (vs : List Value) : Value.compactElements vs = vs.map Value.compact := by
  induction vs with
  | nil => rfl
  | cons v vs ih => rw [Value.compactElements, ih, List.map_cons]

theorem encode_list (vs : List Value) : encode (Value.compact (.list vs)) =
    octet '[' :: (joined (vs.map fun v => encode v.compact) ++ [octet ']']) := by
  have opening : encode "[" = [octet '['] := by decide +kernel
  have closing : encode "]" = [octet ']'] := by decide +kernel
  rw [Value.compact, Text.encode_append, Text.encode_append, opening, closing, encode_intercalate,
    compactElements_eq, List.map_map]
  rfl

/-- What stands in a list that is read goes up to its closing mark. -/
theorem document_readListAs {expected : String} {contents : Reader α} {octets : List UInt8}
    (blank : Blank space) (reads : contents.Reads (octets ++ [octet ']']) a (space ++ [octet ']'])) :
    (readListAs expected contents).document (octet '[' :: (octets ++ [octet ']'])) = .ok a := by
  refine document_of_reads (?_ : Reads _ _ _ []) blank_nil
  refine (reads_peekValue blank_nil (by decide)).bind (Reads.settle ?_)
  rw [if_pos rfl]
  exact (reads_discard _ _).bind (reads.enclosed (reads_closeList blank))

theorem carries_list (stable : Stable element) (carries : List.Forall₂ (Carries element) vs as) :
    Carries (readList element) (.list vs) as := by
  refine ⟨?_, ?_⟩
  · rw [encode_list]
    refine document_readListAs blank_nil (reads_rounds ?_)
    cases carries with
    | nil => exact (reads_elementStep_end blank_nil []).bind (.pure _ _)
    | @cons v a vs as here carries =>
        obtain ⟨space, blank, reads⟩ := here.reads stable (closes_afterCommas vs [])
        have octets : joined ((v :: vs).map fun v => encode v.compact) ++ [octet ']'] =
            encode v.compact ++ (afterCommas vs ++ [octet ']']) := by
          simp [joined, afterCommas, List.flatMap_map]
        have step : (elementStep element []).Reads (encode v.compact ++ (afterCommas vs ++ [octet ']']))
            (.inl [a]) (space ++ (afterCommas vs ++ [octet ']'])) := by
          refine (reads_nextElement_first here.begins).bind ?_
          rw [if_pos rfl]
          exact reads.bind (.pure _ _)
        have enough : vs.length < (encode v.compact ++ (afterCommas vs ++ [octet ']'])).length := by
          have some_octets := length_le_afterCommas vs
          simp only [List.length_append, List.length_singleton]
          omega
        rw [octets]
        exact step.bind (reads_elements stable carries rfl enough blank)
  · rw [encode_list]
    exact ⟨_, _, rfl, by decide, by decide⟩

/-- A pair is read from a list of two elements. -/
theorem carries_pair {expected : String} (stable : Stable first) (stable' : Stable second)
    (carries : Carries first v a) (carries' : Carries second w b) :
    Carries (readPair expected first second) (.list [v, w]) (a, b) := by
  refine ⟨?_, ?_⟩
  · obtain ⟨space, blank, reads⟩ := carries.reads stable (closes_afterCommas [w] [])
    obtain ⟨space', blank', reads'⟩ := carries'.reads stable' (closes_afterCommas [] [])
    have octets : joined ([v, w].map fun v => encode v.compact) ++ [octet ']'] =
        encode v.compact ++ (afterCommas [w] ++ [octet ']']) := by
      simp [joined, afterCommas]
    have later : afterCommas [w] ++ [octet ']'] = octet ',' :: (encode w.compact ++ [octet ']']) := by
      simp [afterCommas]
    rw [encode_list]
    refine document_readListAs blank' ?_
    rw [octets]
    refine (reads_nextElement_first carries.begins).bind ?_
    rw [if_pos rfl]
    refine reads.bind ?_
    rw [later]
    refine (reads_nextElement_comma blank carries'.begins).bind ?_
    rw [if_pos rfl]
    exact reads'.bind (.pure _ _)
  · rw [encode_list]
    exact ⟨_, _, rfl, by decide, by decide⟩

end Lists

/-! ### Records -/

/-- A member as it is written. -/
def written (member : String × Value) : Written :=
  ⟨encode (quote member.1), encode member.2.compact⟩

theorem compactMembers_eq (members : List (String × Value)) : Value.compactMembers members =
    members.map fun member => quote member.1 ++ ":" ++ member.2.compact := by
  induction members with
  | nil => rfl
  | cons member members ih =>
      obtain ⟨name, v⟩ := member
      rw [Value.compactMembers, ih, List.map_cons]

/-- A written object is an object without space. -/
theorem encode_object (members : List (String × Value)) : encode (Value.compact (.object members)) =
    ObjectStart.closed ⟨[], [], members.map written, blank_nil, blank_nil⟩ [] := by
  have opening : encode "\x7b" = [octet '\x7b'] := by decide +kernel
  have closing : encode "\x7d" = [octet '\x7d'] := by decide +kernel
  have colon : encode ":" = [octet ':'] := by decide +kernel
  have member : ∀ m : String × Value, encode (quote m.1 ++ ":" ++ m.2.compact) = (written m).octets := by
    intro m
    rw [Text.encode_append, Text.encode_append, colon, List.append_assoc]
    rfl
  have parts : joined ((members.map fun m => quote m.1 ++ ":" ++ m.2.compact).map encode) =
      writtenMembers (members.map written) := by
    cases members with
    | nil => rfl
    | cons m ms =>
        simp only [List.map_cons, joined, writtenMembers, member, List.map_map, List.flatMap_map,
          Function.comp_def]
  rw [Value.compact, Text.encode_append, Text.encode_append, opening, closing, encode_intercalate,
    compactMembers_eq, parts]
  simp [ObjectStart.closed, ObjectStart.octets]

section Records

variable {members : List (Member σ)} {expected : String} {kind : RecordKind} {s s' t : σ}

/-- A member as written fits if its reader takes its value. -/
theorem fits_written {m : Member σ} {name : String} {v : Value} (plain : IsPlainText name)
    (found : members.find? (·.name == name) = some m)
    (value : (m.read s).document (encode v.compact) = .ok s') :
    Fits members (written (name, v)) name s s' :=
  ⟨document_quote plain, m, found, value⟩

/-- A record is read from all of its members. -/
theorem carries_record {fields : List (String × Value)} {names : List String}
    (fills : Fills members (fields.map written) names s t) (stable : ∀ m ∈ members, ∀ s, Stable (m.read s))
    (distinct : names.Nodup) (full : kind = .overriding ∨ ∀ m ∈ members, m.name ∈ names) :
    Carries (readRecord expected kind members s) (.object fields) t := by
  constructor
  · rw [encode_object]
    exact document_of_reads (ObjectStart.reads_record fills stable distinct full []) blank_nil
  · rw [encode_object]
    exact ⟨_, _, rfl, by decide, by decide⟩

end Records

/-! ### Variants -/

section Variants

variable {variants : List (Variant α)} {variant : Variant α} {name : String} {v : Value} {a : α}

theorem reads_readVariantName (plain : IsPlainText name)
    (found : variants.find? (·.name == name) = some variant) (rest : List UInt8) :
    (readVariantName variants).Reads (encode (quote name) ++ rest) variant rest := by
  rw [encode_quote plain, List.cons_append, List.append_assoc]
  refine (reads_peekPastSpace blank_nil (by decide)).bind ?_
  dsimp only
  rw [if_pos rfl]
  refine Reads.settle ((reads_discard _ _).bind ((reads_readString plain rest).bind ?_))
  rw [found]
  exact .pure _ _

/-- A variant without contents is read from its name. -/
theorem carries_constant (plain : IsPlainText name)
    (found : variants.find? (·.name == name) = some (.constant name a)) :
    Carries (readVariant variants) (.text name) a := by
  have text : encode (Value.compact (.text name)) = encode (quote name) ++ [] := by
    rw [Value.compact, List.append_nil]
  have reads := reads_readVariantName plain found []
  constructor
  · rw [text]
    refine document_of_reads (?_ : Reads _ _ _ []) blank_nil
    rw [encode_quote plain] at reads ⊢
    refine (reads_peekValue blank_nil (by decide)).bind ?_
    rw [if_neg (by decide), if_pos rfl]
    exact reads.bind (.pure _ _)
  · rw [text, encode_quote plain]
    exact ⟨_, _, rfl, by decide, by decide⟩

/-- A variant with contents is read from an object of its name and them. -/
theorem carries_variant (plain : IsPlainText name)
    (found : variants.find? (·.name == name) = some variant) (stable : Stable variant.contents)
    (carries : Carries variant.contents v a) :
    Carries (readVariant variants) (.object [(name, v)]) a := by
  have octets : encode (Value.compact (.object [(name, v)])) =
      octet '\x7b' :: (encode (quote name) ++ octet ':' :: (encode v.compact ++ [octet '\x7d'])) := by
    rw [encode_object]
    simp [ObjectStart.closed, ObjectStart.octets, writtenMembers, written, Written.octets]
  obtain ⟨space, blank, reads⟩ := carries.reads stable (closes_cons (b := octet '\x7d') (by decide) [])
  constructor
  · rw [octets]
    refine document_of_reads (?_ : Reads _ _ _ []) blank_nil
    refine (reads_peekValue blank_nil (by decide)).bind ?_
    rw [if_pos rfl]
    refine (reads_discard _ _).bind ((reads_readVariantName plain found _).bind ?_)
    refine (reads_readColon blank_nil).bind (reads.bind ?_)
    refine (reads_peekPastSpace blank (by decide)).bind ?_
    dsimp only
    rw [if_pos rfl]
    exact (reads_discard _ _).bind (.pure _ _)
  · rw [octets]
    exact ⟨_, _, rfl, by decide, by decide⟩

end Variants

end Emblem.Json
