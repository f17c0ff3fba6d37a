/-
Module: Emblem.Json.Reader
Purpose: Readers of documents. A reader moves a cursor, also when it refuses, and refuses with a
  fault whose place it knows or leaves open.
Main exports: Reader, fail, failOpen, settle, enclosed, rounds, peekValue, readWord, Reader.document
-/
import Emblem.Json.Cursor

namespace Emblem.Json

/-- A reader of a value. The cursor survives a fault, because the octets after it are still looked
at before the fault is reported. -/
abbrev Reader := ExceptT Fault (StateM Cursor)

/-- The octet of an ASCII character. -/
def octet (c : Char) : UInt8 :=
  c.toNat.toUInt8

/-- Refuses at the cursor's place. -/
def fail {α : Type} (cause : Cause) : Reader α := do
  throw ⟨cause, some (← get).place⟩

/-- Refuses without a place. -/
def failOpen {α : Type} (cause : Cause) : Reader α :=
  throw ⟨cause, none⟩

/-- Looks at the next octet. -/
def peek : Reader (Option UInt8) :=
  modifyGet Cursor.look

/-- Takes the next octet. -/
def next : Reader (Option UInt8) :=
  modifyGet Cursor.take

/-- Takes the next octet and forgets it. -/
def discard : Reader Unit := do
  let _ ← next

/-- Takes a run of octets of one sort. -/
def takeRun (sort : UInt8 → Bool) : Reader (List UInt8) :=
  modifyGet (Cursor.takeWhile sort)

/-- What a reader comes to, a fault included. -/
def capture {α : Type} (r : Reader α) : Reader (Except Fault α) :=
  ExceptT.lift r.run

/-- Gives a fault that has no place the place where the cursor then stands. -/
def settle {α : Type} (r : Reader α) : Reader α := do
  match ← capture r with
  | .ok a => pure a
  | .error ⟨cause, some p⟩ => throw ⟨cause, some p⟩
  | .error ⟨cause, none⟩ => fail cause

/-- Reads contents and then their closing mark, the mark also when the contents are refused; the
first fault counts. -/
def enclosed {α : Type} (contents : Reader α) (close : Reader Unit) : Reader α := do
  let outcome ← capture contents
  let closing ← capture close
  match outcome, closing with
  | .ok a, .ok () => pure a
  | .error f, _ => throw f
  | .ok _, .error f => throw f

/-- At most `n` rounds of `step`, which goes on with a state or ends with a result. -/
def roundsWithin {σ β : Type} (step : σ → Reader (σ ⊕ β)) : Nat → σ → Reader β
  | 0, _ => fail .endInValue
  | n + 1, s => do
    match ← step s with
    | .inl s => roundsWithin step n s
    | .inr b => pure b

/-- Rounds of `step` until it ends. A round that goes on takes at least one octet, so there is one
round more than octets left. -/
def rounds {σ β : Type} (step : σ → Reader (σ ⊕ β)) (s : σ) : Reader β := do
  roundsWithin step ((← get).rest.length + 1) s

/-- The octets that may stand between values. -/
def isSpace (b : UInt8) : Bool :=
  b == octet ' ' || b == octet '\n' || b == octet '\t' || b == octet '\r'

/-- Takes the space before the next octet and looks at that octet. -/
def peekPastSpace : Reader (Option UInt8) := do
  let _ ← takeRun isSpace
  peek

/-- The first octet of a value; a document must not end before it. -/
def peekValue : Reader UInt8 := do
  match ← peekPastSpace with
  | some b => pure b
  | none => fail .endInValue

def readWord : List Char → Reader Unit
  | [] => pure ()
  | c :: rest => do
    match ← next with
    | none => fail .endInValue
    | some b => if b = octet c then readWord rest else fail .expectedWord

/-- Takes the colon between a name and its value. -/
def readColon : Reader Unit := do
  match ← peekPastSpace with
  | some b => if b = octet ':' then discard else fail .expectedColon
  | none => fail .endInObject

/-- Nothing but space may follow the value of a document. -/
def readEnd : Reader Unit := do
  match ← peekPastSpace with
  | some _ => fail .trailingCharacters
  | none => pure ()

/-- Reads a whole document as one value. -/
def Reader.document {α : Type} (r : Reader α) (octets : List UInt8) : Except Fault α :=
  let whole : Reader α := do
    let a ← r
    readEnd
    return a
  (whole.run.run (Cursor.start octets)).1

end Emblem.Json
