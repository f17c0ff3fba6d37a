/-
Module: Emblem.Json.Record
Purpose: Readers for values of one kind: texts, numbers, lists, records and variants. Records are
  objects, or lists of their members in order; a variant is its name, or an object of its name and
  its contents.
Main exports: wrongKind, readText, readFloat, readNatural, readNull, readList, readPair, Member,
  RecordKind, readRecord, Variant, readVariant
-/
import Emblem.Json.Skip

namespace Emblem.Json

/-- Refuses a value for its kind; all of it is read first, unless it is a container. -/
def wrongKind {α : Type} (expected : String) : Reader α := do
  let b := (← peek).getD 0
  if b = octet 'n' then
    discard
    readWord ['u', 'l', 'l']
    failOpen (.wrongType .null expected)
  else if b = octet 't' then
    discard
    readWord ['r', 'u', 'e']
    failOpen (.wrongType (.boolean true) expected)
  else if b = octet 'f' then
    discard
    readWord ['a', 'l', 's', 'e']
    failOpen (.wrongType (.boolean false) expected)
  else if b = octet '-' then
    discard
    failOpen (.wrongType (← readNumeral true).found expected)
  else if isDigit b then
    failOpen (.wrongType (← readNumeral false).found expected)
  else if b = octet '"' then
    discard
    failOpen (.wrongType (.text (← readString)) expected)
  else if b = octet '[' then failOpen (.wrongType .list expected)
  else if b = octet '\x7b' then failOpen (.wrongType .object expected)
  else fail .expectedValue

def readText : Reader String := do
  let b ← peekValue
  settle <|
    if b = octet '"' then do
      discard
      readString
    else wrongKind "a string"

/-- Reads a number and what it stands for. -/
def readNumberAs {α : Type} (expected : String) (use : Numeral → Reader α) : Reader α := do
  let b ← peekValue
  settle <|
    if b = octet '-' then do
      discard
      use (← readNumeral true)
    else if isDigit b then do use (← readNumeral false)
    else wrongKind expected

/-- Reads a float; integers are floats as well. -/
def readFloat : Reader Float :=
  readNumberAs "f64" fun n => pure n.toFloat

/-- Reads a natural of at most `limit`; floats are no naturals, not even whole ones. -/
def readNatural (expected : String) (limit : Nat) : Reader Nat :=
  readNumberAs expected fun
    | .natural n =>
      if n ≤ limit then pure n else failOpen (.wrongValue (.integer n) expected)
    | .negative n => failOpen (.wrongValue (.integer n) expected)
    | .float x => failOpen (.wrongType (.float x) expected)

def readNull : Reader Unit := do
  let b ← peekValue
  settle <|
    if b = octet 'n' then do
      discard
      readWord ['u', 'l', 'l']
    else wrongKind "unit"

/-- Whether a list has another element, past the comma before it; `first` when none came yet. -/
def nextElement (first : Bool) : Reader Bool := do
  match ← peekPastSpace with
  | none => fail .endInList
  | some b =>
    if b = octet ']' then return false
    else if first then return true
    else if b = octet ',' then
      discard
      match ← peekPastSpace with
      | none => fail .endInValue
      | some b => if b = octet ']' then fail .trailingComma else return true
    else fail .expectedListCommaOrEnd

/-- Whether an object has another name, past the comma before it; `first` when none came yet. -/
def nextName (first : Bool) : Reader Bool := do
  match ← peekPastSpace with
  | none => fail .endInObject
  | some b =>
    if b = octet '\x7d' then return false
    else if first then
      if b = octet '"' then return true else fail .keyMustBeString
    else if b = octet ',' then
      discard
      match ← peekPastSpace with
      | none => fail .endInValue
      | some b =>
        if b = octet '"' then return true
        else if b = octet '\x7d' then fail .trailingComma
        else fail .keyMustBeString
    else fail .expectedObjectCommaOrEnd

/-- Takes the mark that ends a list. -/
def closeList : Reader Unit := do
  match ← peekPastSpace with
  | none => fail .endInList
  | some b =>
    if b = octet ']' then discard
    else if b = octet ',' then
      discard
      if (← peekPastSpace) = some (octet ']') then fail .trailingComma
      else fail .trailingCharacters
    else fail .trailingCharacters

/-- Takes the mark that ends an object. -/
def closeObject : Reader Unit := do
  match ← peekPastSpace with
  | none => fail .endInObject
  | some b =>
    if b = octet '\x7d' then discard
    else if b = octet ',' then fail .trailingComma
    else fail .trailingCharacters

/-- Reads a list, whose contents are read by `contents`. -/
def readListAs {α : Type} (expected : String) (contents : Reader α) : Reader α := do
  let b ← peekValue
  settle <|
    if b = octet '[' then do
      discard
      enclosed contents closeList
    else wrongKind expected

/-- One more element of a list, whose elements so far are held backwards. -/
def elementStep {α : Type} (element : Reader α) (seen : List α) :
    Reader (List α ⊕ List α) := do
  if ← nextElement seen.isEmpty then
    let a ← element
    return .inl (a :: seen)
  else return .inr seen.reverse

def readList {α : Type} (element : Reader α) : Reader (List α) :=
  readListAs "a sequence" (rounds (elementStep element) [])

def readPair {α β : Type} (expected : String) (first : Reader α) (second : Reader β) :
    Reader (α × β) :=
  readListAs expected do
    if ← nextElement true then
      let a ← first
      if ← nextElement false then
        let b ← second
        return (a, b)
      else failOpen (.wrongLength 1 (expected ++ " with 2 elements"))
    else failOpen (.wrongLength 0 (expected ++ " with 2 elements"))

/-- A member of a record that is held as a `σ`: its name, and the reader that puts its value in. -/
structure Member (σ : Type) where
  name : String
  read : σ → Reader σ

/-- What a record asks for. -/
inductive RecordKind where
  /-- Every member must be given; others are skipped. -/
  | complete
  /-- Members replace those of a record that is given; others are refused. -/
  | overriding
deriving DecidableEq, Repr

/-- Reads the members of a record from the elements of a list. -/
def readElements {σ : Type} (expected : String) (kind : RecordKind) (size : Nat) :
    List (Member σ) → Nat → σ → Reader σ
  | [], _, s => pure s
  | m :: ms, k, s => do
    if ← nextElement (k == 0) then
      readElements expected kind size ms (k + 1) (← m.read s)
    else
      match kind with
      | .overriding => pure s
      | .complete =>
        failOpen (.wrongLength k (expected ++ " with " ++ toString size ++ " elements"))

/-- How far a record is read: what it holds and which members were given. -/
structure Progress (σ : Type) where
  value : σ
  given : List String
  first : Bool

/-- One more member of an object. -/
def memberStep {σ : Type} (kind : RecordKind) (members : List (Member σ)) (p : Progress σ) :
    Reader (Progress σ ⊕ Progress σ) := do
  if ← nextName p.first then
    discard
    let name ← readString
    match members.find? (·.name == name) with
    | some m =>
      if p.given.contains name then failOpen (.duplicateField name)
      else
        readColon
        let value ← m.read p.value
        return .inl ⟨value, name :: p.given, false⟩
    | none =>
      match kind with
      | .overriding => failOpen (.unknownField name (members.map Member.name))
      | .complete =>
        readColon
        skipValue
        return .inl { p with first := false }
  else return .inr p

/-- Reads the members of a record from an object. -/
def readMembers {σ : Type} (kind : RecordKind) (members : List (Member σ)) (start : σ) :
    Reader σ := do
  let p ← rounds (memberStep kind members) ⟨start, [], true⟩
  match kind, members.find? fun m => !p.given.contains m.name with
  | .complete, some m => failOpen (.missingField m.name)
  | _, _ => return p.value

/-- Reads a record, which starts out as `start`. -/
def readRecord {σ : Type} (expected : String) (kind : RecordKind) (members : List (Member σ))
    (start : σ) : Reader σ := do
  let b ← peekValue
  settle <|
    if b = octet '[' then do
      discard
      enclosed (readElements expected kind members.length members 0 start) closeList
    else if b = octet '\x7b' then do
      discard
      enclosed (readMembers kind members start) closeObject
    else wrongKind expected

/-- A variant: its name, its value when the name stands alone, and the reader of its contents. -/
structure Variant (α : Type) where
  name : String
  alone : Reader α
  contents : Reader α

namespace Variant

/-- A variant without contents, which may still be given as `null`. -/
def constant {α : Type} (name : String) (value : α) : Variant α where
  name := name
  alone := pure value
  contents := do
    readNull
    return value

/-- A variant with one value as its contents. -/
def single {α : Type} (name : String) (contents : Reader α) : Variant α where
  name := name
  alone := failOpen (.wrongType .bareVariant "newtype variant")
  contents := contents

/-- A variant with a list of values as its contents. -/
def tuple {α : Type} (name : String) (contents : Reader α) : Variant α where
  name := name
  alone := failOpen (.wrongType .bareVariant "tuple variant")
  contents := contents

end Variant

def readVariantName {α : Type} (variants : List (Variant α)) : Reader (Variant α) := do
  match ← peekPastSpace with
  | none => fail .endInObject
  | some b =>
    if b = octet '"' then
      settle do
        discard
        let name ← readString
        match variants.find? (·.name == name) with
        | some v => pure v
        | none => failOpen (.unknownVariant name (variants.map Variant.name))
    else if b = octet '\x7d' then fail .expectedValue
    else fail .keyMustBeString

/-- Reads one of several variants. -/
def readVariant {α : Type} (variants : List (Variant α)) : Reader α := do
  let b ← peekValue
  if b = octet '\x7b' then
    discard
    let v ← readVariantName variants
    readColon
    let a ← v.contents
    match ← peekPastSpace with
    | none => fail .endInObject
    | some b =>
      if b = octet '\x7d' then
        discard
        return a
      else fail .expectedValue
  else if b = octet '"' then
    let v ← readVariantName variants
    v.alone
  else fail .expectedValue

end Emblem.Json
