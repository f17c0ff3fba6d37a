/-
Module: Emblem.Number.Rounding
Purpose: Rounding of an exact quotient of naturals to the nearest natural, with the rule for ties
  given as data, and of a natural to a given number of binary digits.
Main exports: Tie, roundDiv, roundBits
-/

namespace Emblem.Number

/-- Where a quotient goes that lies exactly half way between two naturals. -/
inductive Tie where
  | toEven
  | upward
deriving DecidableEq, Repr

/-- The natural nearest to `n / d`; a quotient half way between two goes as `tie` says. -/
def roundDiv (tie : Tie) (n d : Nat) : Nat :=
  if 2 * (n % d) < d then n / d
  else if d < 2 * (n % d) then n / d + 1
  else
    match tie with
    | .toEven => n / d + n / d % 2
    | .upward => n / d + 1

/-- The nearest natural with so many significant binary digits; a tie goes to the even one. -/
def roundBits (bits n : Nat) : Nat :=
  let unit := Nat.pow 2 (n.log2 + 1 - bits)
  roundDiv .toEven n unit * unit

end Emblem.Number
