/-
Module: Emblem.Svg.Length
Purpose: What attributes give in numbers: lengths, in units or as a share of a side, and view boxes.
  All are held to 32 bits.
Main exports: readNumber?, Length, Length.ofString?, Length.resolve, Sides, Sides.diagonal, ViewBox,
  ViewBox.ofString?, ViewBox.ofSides
-/
import Emblem.Number.Binary
import Emblem.Number.Literal
import Emblem.Svg.Reader

namespace Emblem.Svg

open Number (single)

/-! Numbers. -/

/-- The sign that a text starts with, if there is one. -/
def signRun (cs : List Char) : List Char :=
  (cs.take 1).filter fun c => c == '+' || c == '-'

/-- The fraction that a text starts with, if there is one. -/
def fractionRun : List Char → List Char
  | '.' :: rest => '.' :: rest.takeWhile Char.isDigit
  | _ => []

/-- The exponent that a text starts with, if there is one. The units `em` and `ex` are none. -/
def exponentRun : List Char → List Char
  | e :: rest =>
    if e = 'e' ∨ e = 'E' then
      match rest with
      | [] => [e]
      | c :: more =>
        if c = 'm' ∨ c = 'x' then [] else e :: c :: more.takeWhile Char.isDigit
    else []
  | [] => []

/-- A finite decimal number, before which separators may stand. -/
def readNumber? (cs : List Char) : Option (Float × List Char) := do
  let cs := cs.dropWhile isSeparator
  let sign := signRun cs
  let rest := cs.drop sign.length
  let whole := rest.takeWhile Char.isDigit
  let rest := rest.dropWhile Char.isDigit
  let fraction := fractionRun rest
  let rest := rest.drop fraction.length
  let exponent := exponentRun rest
  let x ← Number.float? (String.ofList (sign ++ whole ++ fraction ++ exponent))
  if x.isFinite then some (x, rest.drop exponent.length) else none

/-! Lengths. -/

/-- A length in an attribute. -/
inductive Length where
  /-- So many drawing units. -/
  | units (amount : Float)
  /-- So many hundredths of a side. -/
  | share (percent : Float)
deriving DecidableEq, Repr

namespace Length

/-- What a number of a unit is multiplied with, and then divided by, to give drawing units. -/
def factors : List (String × Float × Float) :=
  [("", 1, 1), ("px", 1, 1), ("em", 12, 1), ("ex", 12, 2), ("in", 96, 1), ("cm", 96, 2.54),
   ("mm", 96, 25.4), ("pt", 96, 72), ("pc", 96, 6)]

/-- Reads a number and its unit, or a number of hundredths. -/
def ofString? (s : String) : Option Length := do
  let (x, rest) ← readNumber? s.toList
  if rest = ['%'] then return .share (single x)
  let (factor, divisor) ← factors.lookup (String.ofList rest)
  return .units (single (single (single x * factor) / single divisor))

/-- Whether a length depends on a side. -/
def isShare : Length → Bool
  | units _ => false
  | share _ => true

/-- The length in drawing units beside a side of so many. -/
def resolve (side : Float) : Length → Float
  | units x => x
  | share p => single (single (side * p) / 100)

end Length

/-! Sizes. -/

/-- A width and a height. -/
structure Sides where
  width : Float
  height : Float
deriving DecidableEq, Repr

/-- The side that lengths in no particular direction are shares of. -/
def Sides.diagonal (s : Sides) : Float :=
  single (Float.sqrt
    (single (single (single (s.width * s.width) + single (s.height * s.height)) / 2)))

/-- The part of the plane that a drawing shows. -/
structure ViewBox where
  x : Float
  y : Float
  width : Float
  height : Float
deriving DecidableEq, Repr

namespace ViewBox

/-- The text after one comma, or all of it, without the separators before the comma. -/
def afterComma (cs : List Char) : List Char :=
  match cs.dropWhile isSeparator with
  | ',' :: rest => rest
  | rest => rest

/-- So many numbers of a list; a comma may stand after each. -/
def readNumbers? : Nat → List Char → Option (List Float)
  | 0, _ => some []
  | n + 1, cs => do
    let (x, rest) ← readNumber? cs
    return x :: (← readNumbers? n (afterComma rest))

/-- The extent from `start` over `length`, which must be positive. -/
def extent? (start length : Float) : Option Float :=
  let reach := single (start + length)
  if start.isFinite && reach.isFinite && decide (start < reach) then some (single (reach - start))
  else none

/-- Reads the four numbers of a view box, the last two of which must be positive; what follows them
is passed over. -/
def ofString? (s : String) : Option ViewBox := do
  match ← readNumbers? 4 s.toList with
  | [x, y, width, height] =>
    let width ← extent? (single x) (single width)
    let height ← extent? (single y) (single height)
    return ⟨single x, single y, width, height⟩
  | _ => none

/-- The view box of a drawing that has none of its own. -/
def ofSides (s : Sides) : ViewBox :=
  ⟨0, 0, s.width, s.height⟩

def sides (b : ViewBox) : Sides :=
  ⟨b.width, b.height⟩

end ViewBox

end Emblem.Svg
