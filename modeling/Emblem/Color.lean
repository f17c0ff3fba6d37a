/-
Module: Emblem.Color
Purpose: Opaque colours with their two written forms: six hexadecimal digits, which are what is
  printed, or three, each standing for a pair of equal ones.
Main exports: Color, Color.Fault, Color.ofHex, Color.toHex, Color.ringBlue, Color.ringRed,
  Color.flashGreen, Color.ringYellow, Color.neutralGray
-/
import Emblem.Text.Blank

namespace Emblem

/-- A colour by its red, green and blue channels. -/
structure Color where
  red : UInt8
  green : UInt8
  blue : UInt8
deriving DecidableEq, Repr, Inhabited

namespace Color

def ringBlue : Color := ⟨0x42, 0x85, 0xF4⟩

def ringRed : Color := ⟨0xDB, 0x44, 0x37⟩

/-- The green that a flash turns to. -/
def flashGreen : Color := ⟨0x0F, 0x9D, 0x58⟩

def ringYellow : Color := ⟨0xF4, 0xB4, 0x00⟩

/-- The gray of edges and fan nodes. -/
def neutralGray : Color := ⟨0x99, 0x99, 0x99⟩

/-- Why a text is not a colour. -/
inductive Fault where
  /-- It holds characters outside ASCII. -/
  | notAscii (text : String)
  /-- The digits of one channel are no hexadecimal number. -/
  | badChannel (text : String)
  /-- There are neither six characters nor three. -/
  | badLength
deriving DecidableEq, Repr

def Fault.message : Fault → String
  | .notAscii text => "invalid hex color \"" ++ text ++ "\""
  | .badChannel text => "invalid hex byte \"" ++ text ++ "\""
  | .badLength => "hex color must be #RRGGBB or #RGB (case-insensitive)"

/-- The value of a hexadecimal digit of either case. -/
def hexDigit? (c : Char) : Option Nat :=
  if '0' ≤ c ∧ c ≤ '9' then some (c.toNat - '0'.toNat)
  else if 'a' ≤ c ∧ c ≤ 'f' then some (c.toNat - 'a'.toNat + 10)
  else if 'A' ≤ c ∧ c ≤ 'F' then some (c.toNat - 'A'.toNat + 10)
  else none

/-- The number that a run of hexadecimal digits denotes. -/
def hexNumber? (cs : List Char) : Option Nat :=
  cs.foldlM (fun n c => (hexDigit? c).map (16 * n + ·)) 0

/-- One channel: hexadecimal digits, of which a plus sign may take the place of the first. -/
def channel (cs : List Char) : Except Fault Nat :=
  let ds := match cs with
    | '+' :: d :: rest => d :: rest
    | _ => cs
  match hexNumber? ds with
  | some n => .ok n
  | none => .error (.badChannel (String.ofList cs))

def ofChannels (r g b : Nat) : Color :=
  ⟨.ofNat r, .ofNat g, .ofNat b⟩

/-- The colour that six or three characters after the mark stand for. -/
def ofDigits : List Char → Except Fault Color
  | [a, b, c, d, e, f] => do
    let r ← channel [a, b]
    let g ← channel [c, d]
    let b ← channel [e, f]
    return ofChannels r g b
  | [a, b, c] => do
    let r ← channel [a]
    let g ← channel [b]
    let b ← channel [c]
    return ofChannels (17 * r) (17 * g) (17 * b)
  | _ => .error .badLength

/-- The text after one leading `#`, or all of it. -/
def afterMark : List Char → List Char
  | '#' :: rest => rest
  | cs => cs

/-- Reads `#RRGGBB` or `#RGB`, in either case, with or without the mark and with white space
around. -/
def ofHex (s : String) : Except Fault Color :=
  let cs := afterMark (Text.trim s.toList)
  if cs.all (fun c => decide (c.toNat < 128)) then ofDigits cs
  else .error (.notAscii (String.ofList cs))

/-- An upper-case hexadecimal digit. -/
def hexChar (n : Nat) : Char :=
  if n < 10 then .ofNat ('0'.toNat + n) else .ofNat ('A'.toNat + (n - 10))

/-- A channel as two hexadecimal digits. -/
def channelText (n : UInt8) : List Char :=
  [hexChar (n.toNat / 16), hexChar (n.toNat % 16)]

/-- Writes `#RRGGBB` in upper case. -/
def toHex (c : Color) : String :=
  String.ofList ('#' :: channelText c.red ++ channelText c.green ++ channelText c.blue)

end Color

end Emblem
