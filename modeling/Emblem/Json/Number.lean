/-
Module: Emblem.Json.Number
Purpose: Reading numbers. The digits of a number are taken into a significand of 64 bits as long as
  they fit; a float is that significand, as a float, times or over a power of ten.
Main exports: Numeral, Numeral.toFloat, floatOfParts, readNumeral, skipNumeral
-/
import Emblem.Json.Reader

namespace Emblem.Json

/-- What the digits of a number come to. -/
inductive Numeral where
  /-- Digits alone, below `2 ^ 64`. -/
  | natural (n : Nat)
  /-- A sign and digits that form a negative integer of 64 bits. -/
  | negative (n : Int)
  /-- Every other number. -/
  | float (x : Float)
deriving Repr

/-- What a message says was found. -/
def Numeral.found : Numeral → Found
  | natural n => .integer n
  | negative n => .integer n
  | float x => .float x

/-- The float nearest to a natural below `2 ^ 64`. -/
def floatOfNat (n : Nat) : Float :=
  n.toUInt64.toFloat

def Numeral.toFloat : Numeral → Float
  | natural n => floatOfNat n
  | negative n => -floatOfNat n.natAbs
  | float x => x

/-- Whether an octet is a decimal digit. -/
def isDigit (b : UInt8) : Bool :=
  decide (octet '0' ≤ b) && decide (b ≤ octet '9')

def digitValue (b : UInt8) : Nat :=
  b.toNat - '0'.toNat

/-- Appends digits to `s` up to the first that would lift it above `limit`; with the result comes
how many were appended. -/
def absorb (limit s : Nat) : List Nat → Nat × Nat
  | [] => (s, 0)
  | d :: ds =>
    if limit < 10 * s + d then (s, 0)
    else
      let (s, n) := absorb limit (10 * s + d) ds
      (s, n + 1)

/-- The greatest significand. -/
def significandLimit : Nat := Nat.pow 2 64 - 1

/-- The greatest power of ten that is written in an exponent part. -/
def exponentLimit : Nat := Nat.pow 2 31 - 1

/-- The greatest power of ten that is a float. -/
def powerLimit : Nat := 308

/-- The float nearest to a power of ten. -/
def powerOfTen (n : Nat) : Float :=
  Float.ofScientific 1 false n

/-- Divides by a power of ten, in steps that are floats, until nothing is left. -/
def divideByPower : Nat → Float → Nat → Float
  | 0, x, _ => x
  | rounds + 1, x, n =>
    if n ≤ powerLimit then x / powerOfTen n
    else if x == 0 then x
    else divideByPower rounds (x / powerOfTen powerLimit) (n - powerLimit)

/-- The float `significand * 10 ^ exponent`, rounded once to convert the significand and once for
each step of scaling; none when it is too large. -/
def floatOfParts (negative : Bool) (significand : Nat) (exponent : Int) : Option Float :=
  let x := floatOfNat significand
  let signed (y : Float) := if negative then -y else y
  if exponent < 0 then
    some (signed (divideByPower (exponent.natAbs / powerLimit + 1) x exponent.natAbs))
  else if exponent.toNat ≤ powerLimit then
    let y := x * powerOfTen exponent.toNat
    if y.isInf then none else some (signed y)
  else if x == 0 then some (signed x)
  else none

def readDigits : Reader (List Nat) := do
  return (← takeRun isDigit).map digitValue

/-- The digits before the point: one zero, or digits without a leading zero. -/
def readWhole : Reader (List Nat) := do
  match ← next with
  | none => fail .endInValue
  | some b =>
    if b = octet '0' then
      match ← peek with
      | some d => if isDigit d then fail .invalidNumber else pure [0]
      | none => pure [0]
    else if isDigit b then return digitValue b :: (← readDigits)
    else fail .invalidNumber

/-- The digits after a point, if there is one; at least one must follow it. -/
def readFraction : Reader (Option (List Nat)) := do
  match ← peek with
  | some b =>
    if b = octet '.' then
      discard
      match ← readDigits with
      | [] =>
        match ← peek with
        | some _ => fail .invalidNumber
        | none => fail .endInValue
      | ds => return some ds
    else return none
  | none => return none

/-- Whether the next octet starts an exponent part. -/
def peekExponent : Reader Bool := do
  match ← peek with
  | some b => return b == octet 'e' || b == octet 'E'
  | none => return false

/-- Takes an optional sign; whether it was minus. -/
def readSign : Reader Bool := do
  match ← peek with
  | some b =>
    if b = octet '+' ∨ b = octet '-' then
      discard
      return b == octet '-'
    else return false
  | none => return false

/-- Takes so many octets. -/
def discardMany : Nat → Reader Unit
  | 0 => pure ()
  | n + 1 => do
    discard
    discardMany n

/-- Reads the exponent part after a significand, whose own power of ten is `start`. An exponent
above its limit makes the number too large, unless it is zero or the exponent negative. -/
def readExponent (negative : Bool) (significand : Nat) (start : Int) : Reader Float := do
  discard
  let minus ← readSign
  match ← next with
  | none => fail .endInValue
  | some b =>
    if isDigit b then
      let ds := ((← get).rest.takeWhile isDigit).map digitValue
      let (n, absorbed) := absorb exponentLimit (digitValue b) ds
      if absorbed = ds.length then
        let _ ← readDigits
        match floatOfParts negative significand (if minus then start - n else start + n) with
        | some x => return x
        | none => fail .numberOutOfRange
      else
        discardMany (absorbed + 1)
        if significand ≠ 0 ∧ minus = false then fail .numberOutOfRange
        else
          let _ ← readDigits
          return if negative then -0.0 else 0.0
    else fail .invalidNumber

/-- An integer within 64 bits, or else a float. -/
def numeralOfInteger (negative : Bool) (n : Nat) : Numeral :=
  if !negative then .natural n
  else if n = 0 ∨ Nat.pow 2 63 < n then .float (-floatOfNat n)
  else .negative (-(n : Int))

/-- Reads a number after its sign. Digits of the whole part that no longer fit raise the power of
ten, digits of the fraction that no longer fit are dropped. -/
def readNumeral (negative : Bool) : Reader Numeral := do
  let whole ← readWhole
  let (s, n) := absorb significandLimit 0 whole
  let fraction ← readFraction
  let (s', n') := absorb significandLimit s (fraction.getD [])
  let power : Int := ((whole.length - n : Nat) : Int) - n'
  if ← peekExponent then return .float (← readExponent negative s' power)
  else if fraction.isNone && n == whole.length then return numeralOfInteger negative s
  else
    match floatOfParts negative s' power with
    | some x => return .float x
    | none => fail .numberOutOfRange

/-- Skips the exponent part of a number. -/
def skipExponent : Reader Unit := do
  discard
  let _ ← readSign
  match ← next with
  | some b => if isDigit b then digitsAfter else fail .invalidNumber
  | none => fail .invalidNumber
where
  /-- The digits after the first. -/
  digitsAfter : Reader Unit := do
    let _ ← readDigits

/-- Skips a number after its sign, of which only the form matters. -/
def skipNumeral : Reader Unit := do
  match ← next with
  | none => fail .invalidNumber
  | some b =>
    if b = octet '0' then
      match ← peek with
      | some d => if isDigit d then fail .invalidNumber else pure ()
      | none => pure ()
    else if isDigit b then
      let _ ← readDigits
    else fail .invalidNumber
  match ← peek with
  | some b =>
    if b = octet '.' then
      discard
      if (← readDigits).isEmpty then fail .invalidNumber
  | none => pure ()
  if ← peekExponent then skipExponent

end Emblem.Json
