/-
Module: Emblem.Number.Layout
Purpose: How numbers are written. The shortest digits of a float are laid out as a record says;
  two records are in use, the plain one of drawings and messages and the one of JSON documents.
  Begin times and whole durations are written with a fixed number of decimal places instead.
Main exports: Layout, Layout.plain, Layout.json, plain, plain32, json, places
-/
import Emblem.Number.Shortest

namespace Emblem.Number

open Float.Model (Format)

/-- The decimal digits of a natural. -/
def digits (n : Nat) : List Char :=
  Nat.toDigits 10 n

def zeros (n : Nat) : List Char :=
  List.replicate n '0'

/-- How a number is laid out once its digits are chosen. -/
structure Layout where
  /-- Which of two equally near shortest decimals is taken. -/
  tie : Tie
  /-- What follows the digits of a whole number. -/
  wholeEnd : List Char
  /-- The least and greatest power of ten of a leading digit for which all places are written;
  without it there are no other forms. -/
  positional : Option (Int × Int)
  /-- The text of what is not a number. -/
  notANumber : String
  /-- The text of infinity, without a sign. -/
  infinity : Option String
deriving Repr

/-- Drawings and messages write all places and no superfluous ones. -/
def Layout.plain : Layout where
  tie := .upward
  wholeEnd := []
  positional := none
  notANumber := "NaN"
  infinity := some "inf"

/-- JSON documents mark whole numbers by `.0`, go to scientific form below `1e-5` and from `1e16`
on, and have no text for a value that is not finite. -/
def Layout.json : Layout where
  tie := .toEven
  wholeEnd := ['.', '0']
  positional := some (-5, 15)
  notANumber := "null"
  infinity := none

/-- All places of `d`, whole numbers ending as `wholeEnd` says. -/
def Decimal.positional (wholeEnd : List Char) (d : Decimal) : List Char :=
  let ds := digits d.significand
  if 0 ≤ d.exponent then ds ++ zeros d.exponent.toNat ++ wholeEnd
  else
    let fraction := (-d.exponent).toNat
    if fraction < ds.length then
      ds.take (ds.length - fraction) ++ '.' :: ds.drop (ds.length - fraction)
    else '0' :: '.' :: zeros (fraction - ds.length) ++ ds

/-- The power of ten of the leading digit. -/
def Decimal.leading (d : Decimal) : Int :=
  d.exponent + (digits d.significand).length - 1

/-- One digit, the others after a point, and a signed power of ten. -/
def Decimal.scientific (d : Decimal) : List Char :=
  let mantissa := match digits d.significand with
    | [] => []
    | [c] => [c]
    | c :: rest => c :: '.' :: rest
  let power := d.leading
  mantissa ++ 'e' :: (if power < 0 then '-' else '+') :: digits power.natAbs

/-- The digits of a positive number as the layout has them. -/
def Layout.spell (layout : Layout) (d : Decimal) : List Char :=
  match layout.positional with
  | none => d.positional layout.wholeEnd
  | some (least, greatest) =>
    if least ≤ d.leading ∧ d.leading ≤ greatest then d.positional layout.wholeEnd else d.scientific

def signText : Float.Model.UnpackedFloat.Sign → String
  | .negative => "-"
  | .positive => ""

/-- A float's text under a layout. -/
def Layout.write (layout : Layout) (format : Format) : Binary → String
  | .notANumber => layout.notANumber
  | .infinity s =>
    match layout.infinity with
    | some text => signText s ++ text
    | none => layout.notANumber
  | .zero s => signText s ++ String.ofList ('0' :: layout.wholeEnd)
  | .finite s m e _ => signText s ++ String.ofList (layout.spell (shortest format layout.tie m e))

/-- The text of a 64-bit float in drawings and messages. -/
def plain (x : Float) : String :=
  Layout.plain.write Format.binary64 (binary x)

/-- The text of a 32-bit float in messages. -/
def plain32 (x : Float32) : String :=
  Layout.plain.write Format.binary32 (binary32 x)

/-- The text of a float in a JSON document. -/
def json (x : Float) : String :=
  Layout.json.write Format.binary64 (binary x)

/-- `n * 10 ^ -k`, with exactly `k` places after the point. -/
def pointed (k n : Nat) : List Char :=
  let fraction := digits (n % Nat.pow 10 k)
  digits (n / Nat.pow 10 k) ++ '.' :: zeros (k - fraction.length) ++ fraction

/-- `m * 2 ^ e` in units of `10 ^ -k`, rounded to the nearest, ties to even. -/
def scaledToPlaces (k m : Nat) (e : Int) : Nat :=
  if 0 ≤ e then m * Nat.pow 2 e.toNat * Nat.pow 10 k
  else roundDiv .toEven (m * Nat.pow 10 k) (Nat.pow 2 (-e).toNat)

/-- A value with exactly `k` decimal places, which must not be none. -/
def Binary.places (k : Nat) : Binary → String
  | .notANumber => "NaN"
  | .infinity s => signText s ++ "inf"
  | .zero s => signText s ++ String.ofList (pointed k 0)
  | .finite s m e _ => signText s ++ String.ofList (pointed k (scaledToPlaces k m e))

/-- A float with exactly `k` decimal places; the exact binary value is rounded, ties to even. -/
def places (k : Nat) (x : Float) : String :=
  (binary x).places k

end Emblem.Number
