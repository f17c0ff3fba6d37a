/-
Module: Emblem.Json.Skip
Purpose: Skipping a value of any kind. The containers that are open are kept in a list, so values
  may nest to any depth.
Main exports: skipValue
-/
import Emblem.Json.Text
import Emblem.Json.Number

namespace Emblem.Json

/-- A container that is open. -/
inductive Container where
  | list
  | object
deriving DecidableEq, Repr

namespace Container

/-- The octet that closes a container. -/
def close : Container → UInt8
  | list => octet ']'
  | object => octet '\x7d'

/-- What is wrong when a document ends inside. -/
def endCause : Container → Cause
  | list => .endInList
  | object => .endInObject

/-- What is wrong when a value is followed by neither a comma nor the closing mark. -/
def commaCause : Container → Cause
  | list => .expectedListCommaOrEnd
  | object => .expectedObjectCommaOrEnd

end Container

/-- What the start of a value was. -/
inductive Opening where
  /-- A value without contents, now complete. -/
  | complete
  | container (kind : Container)

/-- Skips a value up to its end or, for a container, up to its contents. -/
def skipOpening : Reader Opening := do
  let b ← peekValue
  if b = octet 'n' then
    discard
    readWord ['u', 'l', 'l']
    return .complete
  else if b = octet 't' then
    discard
    readWord ['r', 'u', 'e']
    return .complete
  else if b = octet 'f' then
    discard
    readWord ['a', 'l', 's', 'e']
    return .complete
  else if b = octet '-' then
    discard
    skipNumeral
    return .complete
  else if isDigit b then
    skipNumeral
    return .complete
  else if b = octet '"' then
    discard
    skipString
    return .complete
  else if b = octet '[' then
    discard
    return .container .list
  else if b = octet '\x7b' then
    discard
    return .container .object
  else fail .expectedValue

/-- Closes what ends here. The state is the open containers, innermost first, and whether the
innermost one holds a value already; the result is what stays open for another value. -/
def closeStep (state : List Container × Bool) :
    Reader ((List Container × Bool) ⊕ List Container) := do
  match state with
  | ([], _) => return .inr []
  | (inner :: outer, filled) =>
    match ← peekPastSpace with
    | none => fail inner.endCause
    | some b =>
      if b = octet ',' ∧ filled then
        discard
        return .inr (inner :: outer)
      else if b = inner.close then
        discard
        return .inl (outer, true)
      else if filled then fail inner.commaCause
      else return .inr (inner :: outer)

/-- Skips the name and the colon before a value of an object. -/
def skipName : Reader Unit := do
  match ← peekPastSpace with
  | some b =>
    if b = octet '"' then discard else fail .keyMustBeString
  | none => fail .endInObject
  skipString
  readColon

/-- Skips one value without its contents, and what closes after it. -/
def skipStep (outer : List Container) : Reader (List Container ⊕ Unit) := do
  let state := match ← skipOpening with
    | .complete => (outer, true)
    | .container kind => (kind :: outer, false)
  match ← rounds closeStep state with
  | [] => return .inr ()
  | .object :: rest =>
    skipName
    return .inl (.object :: rest)
  | .list :: rest => return .inl (.list :: rest)

def skipValue : Reader Unit :=
  rounds skipStep []

end Emblem.Json
