/-
Module: Emblem.Number.Shortest
Purpose: The shortest decimal that reads back as a given binary value. The reals that round to
  `m * 2 ^ e` form an interval around it; the decimals looked for are the multiples of a power of
  ten in that interval, and the first power, going down, with a multiple inside gives the fewest
  digits. Everything is exact arithmetic on naturals.
Main exports: Decimal, Interval, Interval.around, Interval.nearestInside?, shortest
-/
import Emblem.Number.Rounding
import Emblem.Number.Binary

namespace Emblem.Number

open Float.Model (Format)

/-- The number `significand * 10 ^ exponent`. -/
structure Decimal where
  significand : Nat
  exponent : Int
deriving DecidableEq, Repr

/-- A value with the bounds of the reals that round to it, all three in units of `2 ^ scale`. -/
structure Interval where
  low : Nat
  value : Nat
  high : Nat
  /-- Whether the bounds themselves round to the value. -/
  closed : Bool
  scale : Int
deriving DecidableEq, Repr

/-- The reals that round to `m * 2 ^ e`. They reach half a unit to both sides, but only a quarter
of one downwards from the least significand of a binade, below which the units are half as large.
A bound rounds to the neighbour whose significand is even. -/
def Interval.around (format : Format) (m : Nat) (e : Int) : Interval where
  low := 4 * m -
    if m = Nat.pow 2 format.mantissaBitsWithoutImplicit ∧ format.minExponent < e then 1 else 2
  value := 4 * m
  high := 4 * m + 2
  closed := m % 2 == 0
  scale := e - 2

/-- The factors that turn units of `2 ^ scale` into a fraction of `10 ^ k`. -/
def Interval.ratio (i : Interval) (k : Int) : Nat × Nat :=
  (Nat.pow 2 i.scale.toNat * Nat.pow 10 (-k).toNat,
    Nat.pow 2 (-i.scale).toNat * Nat.pow 10 k.toNat)

/-- Whether `c * 10 ^ k` lies in the interval. -/
def Interval.holds (i : Interval) (k : Int) (c : Nat) : Bool :=
  let (num, den) := i.ratio k
  if i.closed then decide (i.low * num ≤ c * den ∧ c * den ≤ i.high * num)
  else decide (i.low * num < c * den ∧ c * den < i.high * num)

/-- The multiple of `10 ^ k` in the interval that is nearest to the value, if there is one. Only
the two multiples next to the value can be nearest. -/
def Interval.nearestInside? (i : Interval) (tie : Tie) (k : Int) : Option Nat :=
  let (num, den) := i.ratio k
  let below := i.value * num / den
  match i.holds k below, i.holds k (below + 1) with
  | true, true => some (roundDiv tie (i.value * num) den)
  | true, false => some below
  | false, true => some (below + 1)
  | false, false => none

/-- Tries the powers of ten downwards from `k`. -/
def Interval.search (i : Interval) (tie : Tie) : Nat → Int → Decimal
  | 0, k => ⟨roundDiv tie (i.value * (i.ratio k).1) (i.ratio k).2, k⟩
  | rounds + 1, k =>
    match i.nearestInside? tie k with
    | some c => ⟨c, k⟩
    | none => i.search tie rounds (k - 1)

/-- A power of ten above every number of the interval; `30103 / 100000` is a little more than the
decimal logarithm of two. -/
def Interval.topPower (i : Interval) : Int :=
  ((i.high.log2 + 1 : Nat) + i.scale) * 30103 / 100000 + 2

/-- The decimal with the fewest digits that rounds to `m * 2 ^ e`, and of those the one nearest to
it. Seventeen digits always suffice, so the search ends before its rounds do. -/
def shortest (format : Format) (tie : Tie) (m : Nat) (e : Int) : Decimal :=
  let i := Interval.around format m e
  i.search tie 40 i.topPower

end Emblem.Number
