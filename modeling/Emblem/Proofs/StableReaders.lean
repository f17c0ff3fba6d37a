/-
Module: Emblem.Proofs.StableReaders
Purpose: All readers of values are stable, one lemma for each: what they take does not depend on what
  follows a closing mark. A reader that may end with the document does not go on with such a mark, and
  one that takes an octet unseen has looked at it before.
Main exports: readString_stable, readNumeral_stable, skipValue_stable, readFloat_stable,
  readNatural_stable, readList_stable, readPair_stable, readRecord_stable, readVariant_stable
-/
import Emblem.Proofs.ReaderStability

namespace Emblem.Json

variable {α β σ : Type}

theorem stable_value {before : List UInt8 → Prop} (a : α) :
    StableFrom before (pure a : Reader α) fun _ _ => True :=
  stable_pure fun _ _ => trivial

/-- What is made of a value is read stably if the value is. -/
theorem stable_map {r : Reader α} (stable : Stable r) (f : α → β) : Stable (return f (← r)) :=
  stable.bind fun _ => stable_value _

theorem readWord_stable (cs : List Char) : Stable (readWord cs) := by
  induction cs with
  | nil => exact stable_value ()
  | cons c cs ih =>
      refine stable_next_bind (never_fail _) fun b => ?_
      dsimp only
      split
      · exact ih
      · exact stable_fail _

/-- An octet that has been looked at is taken. -/
theorem stable_discard_ahead (b : UInt8) : StableFrom (Ahead b) discard fun _ _ => True :=
  stable_discard.weaken (fun _ ahead => Ahead.ne_nil ahead) fun _ _ _ => trivial

theorem readColon_stable : Stable readColon := by
  refine stable_peekPastSpace_bind (never_fail _) fun b => ?_
  dsimp only
  split
  · exact stable_discard_ahead b
  · exact stable_fail _

/-! ### Strings -/

theorem nextInString_stable : Stable nextInString :=
  stable_next_bind (never_fail _) fun _ => stable_value _

theorem readHexUnit_stable : Stable readHexUnit := by
  refine nextInString_stable.bind fun a => ?_
  refine nextInString_stable.bind fun b => ?_
  refine nextInString_stable.bind fun c => ?_
  refine nextInString_stable.bind fun d => ?_
  split
  · exact stable_value _
  · exact stable_fail _

theorem readJoint_stable (c : Char) : Stable (readJoint c) := by
  have look : StableFrom (fun _ => True) peekInString Ahead :=
    stable_peek_bind (never_fail _) fun _ => stable_pure fun _ ahead => ahead
  refine look.bind fun b => stable_discard_bind ?_
  split
  · exact stable_value ()
  · exact stable_fail _

theorem readUnitEscape_stable : Stable readUnitEscape := by
  refine readHexUnit_stable.bind fun first => ?_
  split
  · exact stable_fail _
  · split
    · exact stable_value _
    · refine (readJoint_stable _).bind fun _ => (readJoint_stable _).bind fun _ => ?_
      refine readHexUnit_stable.bind fun second => ?_
      split
      · exact stable_fail _
      · exact stable_value _

theorem readEscape_stable : Stable readEscape := by
  refine nextInString_stable.bind fun b => ?_
  split
  · exact stable_value _
  · split
    · exact readUnitEscape_stable
    · exact stable_fail _

theorem stringStep_stable (seen : List UInt8) : Stable (stringStep seen) := by
  refine nextInString_stable.bind fun b => ?_
  split
  · exact stable_value _
  · split
    · exact readEscape_stable.bind fun c => stable_value _
    · split
      · exact stable_fail _
      · exact stable_value _

theorem textOfContents_stable (contents : List UInt8) : Stable (textOfContents contents) := by
  unfold textOfContents
  split
  · exact stable_value _
  · exact (never_bind fun _ => never_throw _).stable

theorem readString_stable : Stable readString :=
  (Stable.rounds stringStep_stable []).bind fun _ => textOfContents_stable _

theorem skipStringStep_stable (u : Unit) : Stable (skipStringStep u) := by
  refine nextInString_stable.bind fun b => ?_
  split
  · exact stable_value _
  · split
    · refine nextInString_stable.bind fun e => ?_
      split
      · exact stable_value _
      · split
        · exact readHexUnit_stable.bind fun _ => stable_value _
        · exact stable_fail _
    · split
      · exact stable_fail _
      · exact stable_value _

theorem skipString_stable : Stable skipString :=
  Stable.rounds skipStringStep_stable ()

/-! ### Numbers -/

theorem readDigits_stable : Stable readDigits :=
  (stable_takeRun (forall_closers rfl rfl rfl rfl)).bind fun _ => stable_value _

theorem readWhole_stable : Stable readWhole := by
  refine stable_next_bind (never_fail _) fun b => ?_
  dsimp only
  split
  · refine stable_peek_bind_open (stable_value _) (fun d => ?_) (forall_closers rfl rfl rfl rfl)
    dsimp only
    split
    · exact stable_fail _
    · exact stable_value _
  · split
    · exact readDigits_stable.bind fun _ => stable_value _
    · exact stable_fail _

theorem readFraction_stable : Stable readFraction := by
  refine stable_peek_bind_open (stable_value _) (fun b => ?_) (forall_closers rfl rfl rfl rfl)
  dsimp only
  split
  · refine stable_discard_bind (readDigits_stable.bind fun ds => ?_)
    split
    · refine (never_bind fun o => ?_).stable
      cases o with
      | none => exact never_fail _
      | some b => exact never_fail _
    · exact stable_value _
  · exact stable_value _

/-- An exponent part is looked for before it is taken. -/
theorem peekExponent_stable :
    StableFrom (fun _ => True) peekExponent fun there s => there = true → s ≠ [] := by
  refine stable_peek_bind_open ?_ (fun b => ?_) (forall_closers rfl rfl rfl rfl)
  · exact stable_pure fun _ _ absent => by cases absent
  · exact stable_pure fun _ ahead _ => Ahead.ne_nil ahead

theorem readSign_stable : Stable readSign := by
  refine stable_peek_bind_open (stable_value _) (fun b => ?_) (forall_closers rfl rfl rfl rfl)
  dsimp only
  split
  · exact stable_discard_bind (stable_value _)
  · exact stable_value _

theorem reads_discardMany {n : Nat} {s : List UInt8} (enough : n ≤ s.length) :
    Reader.Reads (discardMany n) s () (s.drop n) := by
  induction n generalizing s with
  | zero => exact .pure () s
  | succ n ih =>
      cases s with
      | nil => cases enough
      | cons b s => exact (reads_discard b s).bind (ih (Nat.le_of_succ_le_succ enough))

theorem discardMany_stable (n : Nat) :
    StableFrom (fun s => n ≤ s.length) (discardMany n) fun _ _ => True := by
  intro c u c' enough taken
  obtain ⟨d, left, taken'⟩ := reads_discardMany enough c rfl
  have same : c'.rest = c.rest.drop n := by
    unfold Reader.Takes at taken taken'
    rw [taken] at taken'
    cases taken'
    exact left
  have shorter : c'.rest.length ≤ c.rest.length := by
    rw [same, List.length_drop]
    omega
  refine ⟨trivial, shorter, fun tail _ => ?_⟩
  have more : n ≤ (c.rest ++ tail).length := by
    rw [List.length_append]
    omega
  have reads := reads_discardMany more
  rw [List.drop_append_of_le_length enough, ← same] at reads
  exact reads

theorem absorb_le (limit s : Nat) (ds : List Nat) : (absorb limit s ds).2 ≤ ds.length := by
  induction ds generalizing s with
  | nil => exact Nat.le_refl _
  | cons d ds ih =>
      unfold absorb
      split
      · exact Nat.zero_le _
      · exact Nat.succ_le_succ (ih _)

/-- A run of octets of one sort does not go on with a closing mark. -/
theorem takeWhile_append_of_closes {sort : UInt8 → Bool} (ends : ∀ b ∈ closers, sort b = false)
    (s : List UInt8) {tail : List UInt8} (closes : Closes tail) :
    (s ++ tail).takeWhile sort = s.takeWhile sort := by
  induction s with
  | nil =>
      cases tail with
      | nil => rfl
      | cons b tail => simp [ends b (closes b rfl)]
  | cons b s ih => simp [List.takeWhile_cons, ih]

theorem readExponent_stable (negative : Bool) (significand : Nat) (start : Int) :
    StableFrom (fun s => s ≠ []) (readExponent negative significand start) fun _ _ => True := by
  refine stable_discard.bind fun _ => readSign_stable.bind fun minus => ?_
  refine stable_next_bind (never_fail _) fun b => ?_
  dsimp only
  split
  case isFalse => exact stable_fail _
  case isTrue =>
      refine stable_get_bind (fun s => (s.takeWhile isDigit).map digitValue) ?_ ?_ ?_
      · intro c d same
        simp only [same]
      · intro s tail closes
        rw [takeWhile_append_of_closes (forall_closers rfl rfl rfl rfl) s closes]
      · intro c
        generalize exponent : (c.rest.takeWhile isDigit).map digitValue = ds
        have few := absorb_le exponentLimit (digitValue b) ds
        generalize absorb exponentLimit (digitValue b) ds = absorbed at few
        obtain ⟨n, k⟩ := absorbed
        dsimp only at few ⊢
        split
        case isTrue =>
            refine readDigits_stable.of_stable.bind fun _ => ?_
            split
            · exact stable_value _
            · exact stable_fail _
        case isFalse partly =>
            refine ((discardMany_stable (k + 1)).weaken ?_ fun _ _ _ => trivial).bind fun _ => ?_
            · intro s same
              have length := congrArg List.length same
              have run := (List.takeWhile_prefix isDigit (l := s)).length_le
              rw [List.length_map] at length
              omega
            · split
              · exact stable_fail _
              · exact readDigits_stable.bind fun _ => stable_value _

theorem readNumeral_stable (negative : Bool) : Stable (readNumeral negative) := by
  refine readWhole_stable.bind fun whole => ?_
  generalize absorb significandLimit 0 whole = absorbed
  obtain ⟨s, n⟩ := absorbed
  refine readFraction_stable.bind fun fraction => ?_
  dsimp only
  generalize absorb significandLimit s (fraction.getD []) = absorbed
  obtain ⟨s', n'⟩ := absorbed
  refine peekExponent_stable.bind fun there => ?_
  dsimp only
  split
  case isTrue shown =>
      have exponent := fun start => (readExponent_stable negative s' start).weaken
        (fun _ (some_octet : there = true → _) => some_octet shown) fun _ _ _ => trivial
      exact (exponent _).bind fun _ => stable_value _
  case isFalse =>
      split
      · exact stable_value _
      · split
        · exact stable_value _
        · exact stable_fail _

theorem skipExponent_stable : StableFrom (fun s => s ≠ []) skipExponent fun _ _ => True := by
  refine stable_discard.bind fun _ => readSign_stable.bind fun _ => ?_
  refine stable_next_bind (never_fail _) fun b => ?_
  dsimp only
  split
  · exact readDigits_stable.bind fun _ => stable_value _
  · exact stable_fail _

/-- What may follow the whole part of a number that is skipped. -/
def skipFraction : Reader Unit := do
  match ← peek with
  | some b =>
    if b = octet '.' then
      discard
      if (← readDigits).isEmpty then fail .invalidNumber
  | none => pure ()
  if ← peekExponent then skipExponent

theorem skipFraction_stable : Stable skipFraction := by
  have exponent : Stable (do if ← peekExponent then skipExponent) := by
    refine peekExponent_stable.bind fun there => ?_
    split
    case isTrue shown =>
        exact skipExponent_stable.weaken (fun _ some_octet => some_octet shown) fun _ _ _ => trivial
    case isFalse => exact stable_value _
  refine stable_peek_bind_open exponent (fun b => ?_) (forall_closers rfl rfl rfl rfl)
  dsimp only
  split
  · refine stable_discard_bind (readDigits_stable.bind fun ds => ?_)
    split
    · exact (stable_fail _).bind fun _ => exponent
    · exact exponent
  · exact exponent.of_stable

theorem skipNumeral_stable : Stable skipNumeral := by
  refine stable_next_bind ?_ fun b => ?_
  · exact never_bind_of_never (never_fail _)
  · dsimp only
    split
    · refine stable_peek_bind_open skipFraction_stable (fun d => ?_) (forall_closers rfl rfl rfl rfl)
      dsimp only
      split
      · exact (stable_fail _).bind fun _ => skipFraction_stable
      · exact skipFraction_stable.of_stable
    · split
      · exact readDigits_stable.bind fun _ => skipFraction_stable
      · exact (stable_fail _).bind fun _ => skipFraction_stable

/-! ### Skipped values -/

theorem skipOpening_stable : Stable skipOpening := by
  have word : ∀ (b : UInt8) (cs : List Char) (opening : Opening),
      StableFrom (Ahead b) (do discard; readWord cs; return opening) fun _ _ => True :=
    fun b cs _ => stable_discard_bind ((readWord_stable cs).bind fun _ => stable_value _)
  refine stable_peekValue.bind fun b => ?_
  iterate 3
    split
    · exact word b _ _
  split
  · exact stable_discard_bind (skipNumeral_stable.bind fun _ => stable_value _)
  split
  · exact skipNumeral_stable.of_stable.bind fun _ => stable_value _
  split
  · exact stable_discard_bind (skipString_stable.bind fun _ => stable_value _)
  iterate 2
    split
    · exact stable_discard_bind (stable_value _)
  exact stable_fail _

theorem closeStep_stable (state : List Container × Bool) : Stable (closeStep state) := by
  obtain ⟨containers, filled⟩ := state
  cases containers with
  | nil => exact stable_value _
  | cons inner outer =>
      refine stable_peekPastSpace_bind (never_fail _) fun b => ?_
      dsimp only
      split
      · exact stable_discard_bind (stable_value _)
      · split
        · exact stable_discard_bind (stable_value _)
        · split
          · exact stable_fail _
          · exact stable_value _

theorem skipName_stable : Stable skipName := by
  have name : Stable (do skipString; readColon) := skipString_stable.bind fun _ => readColon_stable
  refine stable_peekPastSpace_bind (never_bind_of_never (never_fail _)) fun b => ?_
  dsimp only
  split
  · exact stable_discard_bind name
  · exact (never_bind_of_never (never_fail _)).stable

theorem skipStep_stable (outer : List Container) : Stable (skipStep outer) := by
  refine skipOpening_stable.bind fun opening => ?_
  dsimp only
  refine (Stable.rounds closeStep_stable _).bind fun left => ?_
  split
  · exact stable_value _
  · exact skipName_stable.bind fun _ => stable_value _
  · exact stable_value _

theorem skipValue_stable : Stable skipValue :=
  Stable.rounds skipStep_stable []

/-! ### Values of one kind -/

/-- A value of another kind is read only to be refused. -/
theorem never_wrongKind (expected : String) : Never (wrongKind expected : Reader α) := by
  have word : ∀ (cs : List Char) (cause : Cause),
      Never (do discard; readWord cs; failOpen cause : Reader α) :=
    fun _ _ => never_bind fun _ => never_bind fun _ => never_failOpen _
  refine never_bind fun o => ?_
  dsimp only
  iterate 3
    split
    · exact word _ _
  split
  · exact never_bind fun _ => never_bind fun _ => never_failOpen _
  split
  · exact never_bind fun _ => never_failOpen _
  split
  · exact never_bind fun _ => never_bind fun _ => never_failOpen _
  iterate 2
    split
    · exact never_failOpen _
  exact never_fail _

theorem readText_stable : Stable readText := by
  refine stable_peekValue.bind fun b => StableFrom.settle ?_
  split
  · exact stable_discard_bind readString_stable
  · exact (never_wrongKind _).stable

theorem readNumberAs_stable {expected : String} {use : Numeral → Reader α} (uses : ∀ n, Stable (use n)) :
    Stable (readNumberAs expected use) := by
  refine stable_peekValue.bind fun b => StableFrom.settle ?_
  split
  · exact stable_discard_bind ((readNumeral_stable true).bind uses)
  · split
    · exact (readNumeral_stable false).of_stable.bind uses
    · exact (never_wrongKind _).stable

theorem readFloat_stable : Stable readFloat :=
  readNumberAs_stable fun _ => stable_value _

theorem readNatural_stable (expected : String) (limit : Nat) : Stable (readNatural expected limit) := by
  refine readNumberAs_stable fun n => ?_
  cases n with
  | natural n =>
      dsimp only
      split
      · exact stable_value _
      · exact stable_failOpen _
  | negative n => exact stable_failOpen _
  | float x => exact stable_failOpen _

theorem readNull_stable : Stable readNull := by
  refine stable_peekValue.bind fun b => StableFrom.settle ?_
  split
  · exact stable_discard_bind (readWord_stable _)
  · exact (never_wrongKind _).stable

theorem nextElement_stable (first : Bool) : Stable (nextElement first) := by
  refine stable_peekPastSpace_bind (never_fail _) fun b => ?_
  dsimp only
  split
  · exact stable_value _
  · split
    · exact stable_value _
    · split
      · refine stable_discard_bind (stable_peekPastSpace_bind (never_fail _) fun b => ?_)
        dsimp only
        split
        · exact stable_fail _
        · exact stable_value _
      · exact stable_fail _

/-- Before a name there is its quote. -/
theorem nextName_stable (first : Bool) :
    StableFrom (fun _ => True) (nextName first) fun more s => more = true → s ≠ [] := by
  have more : ∀ b, StableFrom (Ahead b) (pure true : Reader Bool) fun more s => more = true → s ≠ [] :=
    fun b => stable_pure fun _ ahead _ => Ahead.ne_nil ahead
  refine stable_peekPastSpace_bind (never_fail _) fun b => ?_
  dsimp only
  split
  · exact stable_pure fun _ _ absent => by cases absent
  · split
    · split
      · exact more b
      · exact stable_fail _
    · split
      · refine stable_discard_bind (stable_peekPastSpace_bind (never_fail _) fun b => ?_)
        dsimp only
        split
        · exact more b
        · split
          · exact stable_fail _
          · exact stable_fail _
      · exact stable_fail _

theorem closeList_stable : Stable closeList := by
  refine stable_peekPastSpace_bind (never_fail _) fun b => ?_
  dsimp only
  split
  · exact stable_discard_ahead b
  · split
    · refine (never_bind fun _ => never_bind fun o => ?_).stable
      split
      · exact never_fail _
      · exact never_fail _
    · exact stable_fail _

theorem closeObject_stable : Stable closeObject := by
  refine stable_peekPastSpace_bind (never_fail _) fun b => ?_
  dsimp only
  split
  · exact stable_discard_ahead b
  · split
    · exact stable_fail _
    · exact stable_fail _

theorem readListAs_stable {expected : String} {contents : Reader α} (stable : Stable contents) :
    Stable (readListAs expected contents) := by
  refine stable_peekValue.bind fun b => StableFrom.settle ?_
  split
  · exact stable_discard_bind (stable.enclosed closeList_stable)
  · exact (never_wrongKind _).stable

theorem readList_stable {element : Reader α} (stable : Stable element) : Stable (readList element) := by
  refine readListAs_stable (Stable.rounds (fun seen => ?_) [])
  refine (nextElement_stable _).bind fun more => ?_
  split
  · exact stable.bind fun _ => stable_value _
  · exact stable_value _

theorem readPair_stable {expected : String} {first : Reader α} {second : Reader β} (stable : Stable first)
    (stable' : Stable second) : Stable (readPair expected first second) := by
  refine readListAs_stable ((nextElement_stable _).bind fun more => ?_)
  split
  · refine stable.bind fun a => (nextElement_stable _).bind fun more => ?_
    split
    · exact stable'.bind fun _ => stable_value _
    · exact stable_failOpen _
  · exact stable_failOpen _

/-! ### Records and variants -/

section Records

variable {members : List (Member σ)} (stable : ∀ m ∈ members, ∀ s, Stable (m.read s))

include stable

theorem readElements_stable (expected : String) (kind : RecordKind) (size k : Nat) (s : σ) :
    Stable (readElements expected kind size members k s) := by
  induction members generalizing k s with
  | nil => exact stable_value _
  | cons m ms ih =>
      refine (nextElement_stable _).bind fun more => ?_
      split
      · exact (stable m List.mem_cons_self s).bind fun s' =>
          ih (fun m member => stable m (List.mem_cons_of_mem _ member)) _ _
      · split
        · exact stable_value _
        · exact stable_failOpen _

theorem memberStep_stable (kind : RecordKind) (p : Progress σ) : Stable (memberStep kind members p) := by
  refine (nextName_stable _).bind fun more => ?_
  split
  case isFalse => exact stable_value _
  case isTrue more =>
      have quote := stable_discard.weaken (fun _ (some_octet : _ → _) => some_octet more)
        fun _ _ (_ : True) => trivial
      refine quote.bind fun _ => readString_stable.bind fun name => ?_
      split
      case h_1 m found =>
          split
          · exact stable_failOpen _
          · refine readColon_stable.bind fun _ => ?_
            exact (stable m (List.mem_of_find?_eq_some found) _).bind fun _ => stable_value _
      case h_2 =>
          cases kind with
          | overriding => exact stable_failOpen _
          | complete => exact readColon_stable.bind fun _ => skipValue_stable.bind fun _ => stable_value _

/-- A record is read stably if its members are. -/
theorem readRecord_stable (expected : String) (kind : RecordKind) (start : σ) :
    Stable (readRecord expected kind members start) := by
  have object : Stable (readMembers kind members start) := by
    refine (Stable.rounds (memberStep_stable stable kind) _).bind fun p => ?_
    split
    · exact stable_failOpen _
    · exact stable_value _
  refine stable_peekValue.bind fun b => StableFrom.settle ?_
  split
  · exact stable_discard_bind ((readElements_stable stable _ _ _ _ _).enclosed closeList_stable)
  · split
    · exact stable_discard_bind (object.enclosed closeObject_stable)
    · exact (never_wrongKind _).stable

end Records

/-- Members made of readers and setters are read stably if their values are: here the first of them, before
others. -/
theorem setters_stable_cons {r : Reader α} (first : Stable r) {name : String} {put : σ → α → σ}
    {members : List (Member σ)} (others : ∀ m ∈ members, ∀ s, Stable (m.read s)) :
    ∀ m ∈ (⟨name, fun s => return put s (← r)⟩ :: members : List (Member σ)), ∀ s, Stable (m.read s) := by
  refine List.forall_mem_cons.2 ⟨fun s => ?_, others⟩
  exact stable_map first (put s)

/-- A variant is read stably in both of its forms. -/
structure Variant.Stable (v : Variant α) : Prop where
  alone : Json.Stable v.alone
  contents : Json.Stable v.contents

theorem Variant.constant_stable (name : String) (value : α) : (Variant.constant name value).Stable :=
  ⟨stable_value _, readNull_stable.bind fun _ => stable_value _⟩

theorem Variant.single_stable (name : String) {contents : Reader α} (stable : Json.Stable contents) :
    (Variant.single name contents).Stable :=
  ⟨stable_failOpen _, stable⟩

theorem Variant.tuple_stable (name : String) {contents : Reader α} (stable : Json.Stable contents) :
    (Variant.tuple name contents).Stable :=
  ⟨stable_failOpen _, stable⟩

section Variants

variable {variants : List (Variant α)}

/-- The name of a variant is one of those asked for. -/
theorem readVariantName_stable {before : List UInt8 → Prop} :
    StableFrom before (readVariantName variants) fun v _ => v ∈ variants := by
  refine stable_peekPastSpace_bind (never_fail _) fun b => ?_
  dsimp only
  split
  · refine StableFrom.settle (stable_discard_bind (readString_stable.bind fun name => ?_))
    split
    case h_1 v found => exact stable_pure fun _ _ => List.mem_of_find?_eq_some found
    case h_2 => exact stable_failOpen _
  · split
    · exact stable_fail _
    · exact stable_fail _

/-- The mark after the contents of a variant. -/
def closeVariant (a : α) : Reader α := do
  match ← peekPastSpace with
  | none => fail .endInObject
  | some b =>
    if b = octet '\x7d' then
      discard
      return a
    else fail .expectedValue

theorem closeVariant_stable (a : α) : Stable (closeVariant a) := by
  refine stable_peekPastSpace_bind (never_fail _) fun b => ?_
  dsimp only
  split
  · exact stable_discard_bind (stable_value _)
  · exact stable_fail _

/-- A variant is read stably if all of them are. -/
theorem readVariant_stable (stable : ∀ v ∈ variants, v.Stable) : Stable (readVariant variants) := by
  refine stable_peekValue.bind fun b => ?_
  split
  · refine stable_discard_bind (readVariantName_stable.bind fun v => stable_of_imp fun known => ?_)
    exact readColon_stable.bind fun _ => (stable v known).contents.bind closeVariant_stable
  · split
    · exact readVariantName_stable.bind fun v => stable_of_imp fun known => (stable v known).alone
    · exact stable_fail _

/-- Variants without contents, one for each of some values. -/
theorem readVariant_constants_stable (name : α → String) (values : List α) :
    Stable (readVariant (values.map fun a => .constant (name a) a)) := by
  refine readVariant_stable fun v member => ?_
  obtain ⟨a, _, rfl⟩ := List.mem_map.1 member
  exact Variant.constant_stable _ _

theorem readVariant_pair_stable {v w : Variant α} (first : v.Stable) (second : w.Stable) :
    Stable (readVariant [v, w]) := by
  refine readVariant_stable (List.forall_mem_cons.2 ⟨first, ?_⟩)
  exact List.forall_mem_singleton.2 second

end Variants

end Emblem.Json
