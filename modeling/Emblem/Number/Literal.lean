/-
Module: Emblem.Number.Literal
Purpose: Reading a decimal literal: an optional sign, then digits with an optional point and
  exponent, or one of the words for infinity and for what is not a number.
Main exports: Literal, Literal.ofString?, Literal.toFloat, Literal.toFloat32, float?, float32?
-/

namespace Emblem.Number

/-- What a literal denotes, exactly. -/
inductive Literal where
  | notANumber
  | infinite (negative : Bool)
  /-- `digits * 10 ^ exponent`, with a sign. -/
  | decimal (negative : Bool) (digits : Nat) (exponent : Int)
deriving DecidableEq, Repr

namespace Literal

/-- Splits a leading sign off; none counts as plus. -/
def splitSign : List Char → Bool × List Char
  | '-' :: rest => (true, rest)
  | '+' :: rest => (false, rest)
  | rest => (false, rest)

/-- The natural that a run of decimal digits denotes. -/
def naturalOf (ds : List Char) : Nat :=
  ds.foldl (fun n c => 10 * n + (c.toNat - '0'.toNat)) 0

/-- The exponent part: nothing, or a mark, an optional sign and at least one digit. -/
def exponentOf? : List Char → Option Int
  | [] => some 0
  | c :: rest =>
    if c = 'e' ∨ c = 'E' then
      let (negative, ds) := splitSign rest
      if ds.isEmpty || !ds.all Char.isDigit then none
      else some (if negative then -(naturalOf ds : Int) else naturalOf ds)
    else none

/-- Digits with an optional point among or beside them, and an optional exponent. -/
def decimalOf? (negative : Bool) (cs : List Char) : Option Literal :=
  let whole := cs.takeWhile Char.isDigit
  let rest := cs.dropWhile Char.isDigit
  let (fraction, rest) := match rest with
    | '.' :: after => (after.takeWhile Char.isDigit, after.dropWhile Char.isDigit)
    | _ => ([], rest)
  if whole.isEmpty && fraction.isEmpty then none
  else (exponentOf? rest).map fun e =>
    .decimal negative (naturalOf (whole ++ fraction)) (e - fraction.length)

/-- Reads a literal; the words are read in any case. -/
def ofString? (s : String) : Option Literal :=
  let (negative, body) := splitSign s.toList
  let word := body.map Char.toLower
  if word = "nan".toList then some .notANumber
  else if word = "inf".toList ∨ word = "infinity".toList then some (.infinite negative)
  else decimalOf? negative body

/-- The 64-bit float nearest to the literal. -/
def toFloat : Literal → Float
  | .notANumber => 0 / 0
  | .infinite negative => if negative then -1 / 0 else 1 / 0
  | .decimal negative ds e =>
    let x := Float.ofScientific ds (decide (e < 0)) e.natAbs
    if negative then -x else x

/-- The 32-bit float nearest to the literal. -/
def toFloat32 : Literal → Float32
  | .notANumber => 0 / 0
  | .infinite negative => if negative then -1 / 0 else 1 / 0
  | .decimal negative ds e =>
    let x := Float32.ofScientific ds (decide (e < 0)) e.natAbs
    if negative then -x else x

end Literal

/-- The 64-bit float that a text denotes. -/
def float? (s : String) : Option Float :=
  (Literal.ofString? s).map Literal.toFloat

/-- The 32-bit float that a text denotes. -/
def float32? (s : String) : Option Float32 :=
  (Literal.ofString? s).map Literal.toFloat32

end Emblem.Number
