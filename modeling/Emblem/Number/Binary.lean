/-
Module: Emblem.Number.Binary
Purpose: The exact binary value behind a float, and the operations on floats that are stated on
  that value: being whole, rounding to a whole number, and changing between the two widths.
Main exports: Binary, binary, binary32, Binary.isWhole, Binary.ceilWithin, Binary.floor,
  Binary.ceil, narrow, widen, single
-/

namespace Emblem.Number

open Float.Model (Format)

/-- The exact value of a float: a sign, a significand and a power of two, a signed zero, a signed
infinity, or not a number. -/
abbrev Binary := Float.Model.UnpackedFloat

/-- The exact value of a 64-bit float. -/
def binary (x : Float) : Binary :=
  .unpack Format.binary64 x.toBits.toBitVec

/-- The exact value of a 32-bit float. -/
def binary32 (x : Float32) : Binary :=
  .unpack Format.binary32 x.toBits.toBitVec

/-- Whether the value is a finite whole number. -/
def Binary.isWhole : Binary → Bool
  | .zero _ => true
  | .finite _ m e _ => decide (0 ≤ e) || m % Nat.pow 2 (-e).toNat == 0
  | .infinity _ => false
  | .notANumber => false

/-- The least natural that is not below `m * 2 ^ e`. -/
def ceilScaled (m : Nat) (e : Int) : Nat :=
  if 0 ≤ e then m * Nat.pow 2 e.toNat
  else (m + (Nat.pow 2 (-e).toNat - 1)) / Nat.pow 2 (-e).toNat

/-- The value rounded up to a natural and kept within `0` and `limit`; what is not a number counts
as zero. -/
def Binary.ceilWithin (limit : Nat) : Binary → Nat
  | .finite .positive m e _ => min limit (ceilScaled m e)
  | .infinity .positive => limit
  | _ => 0

/-- The greatest whole number that is not above `n * 2 ^ e`. -/
def floorScaled (n e : Int) : Int :=
  if 0 ≤ e then n * Nat.pow 2 e.toNat else n.fdiv (Nat.pow 2 (-e).toNat)

/-- A significand with its sign. -/
def signed (s : Float.Model.UnpackedFloat.Sign) (m : Nat) : Int :=
  match s with
  | .positive => m
  | .negative => -m

/-- The greatest whole number that is not above the value; what is not finite counts as zero. -/
def Binary.floor : Binary → Int
  | .finite s m e _ => floorScaled (signed s m) e
  | _ => 0

/-- The least whole number that is not below the value; what is not finite counts as zero. -/
def Binary.ceil : Binary → Int
  | .finite s m e _ => -floorScaled (-signed s m) e
  | _ => 0

/-- The value rounded to the nearest one of another width, ties to even. -/
def Binary.reformat (format : Format) : Binary → Binary
  | .finite s m e _ => .round format s m e
  | b => b

/-- The 32-bit float nearest to a 64-bit one. -/
def narrow (x : Float) : Float32 :=
  .ofBits (.ofBitVec
    (Float.Model.UnpackedFloat.pack Format.binary32 ((binary x).reformat Format.binary32)))

/-- The 64-bit float that equals a 32-bit one. -/
def widen (x : Float32) : Float :=
  .ofBits (.ofBitVec
    (Float.Model.UnpackedFloat.pack Format.binary64 ((binary32 x).reformat Format.binary64)))

/-- A float rounded to what 32 bits can hold. A sum, product, quotient or square root of floats that
32 bits hold, rounded so, is the one that 32-bit arithmetic gives. -/
def single (x : Float) : Float :=
  widen (narrow x)

end Emblem.Number
