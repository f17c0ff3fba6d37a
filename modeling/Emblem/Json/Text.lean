/-
Module: Emblem.Json.Text
Purpose: Reading strings. Escapes are resolved and the octets are then checked to be UTF-8; the
  place of a malformed octet is counted back from the closing quote, an escape after it as the
  octets that it stands for.
Main exports: readString, skipString
-/
import Emblem.Json.Reader
import Emblem.Text.Utf8

namespace Emblem.Json

/-- The value of a hexadecimal digit. -/
def hexValue? (b : UInt8) : Option Nat :=
  Color.hexDigit? (Char.ofNat b.toNat)

/-- The next octet of a string, which must not end here. -/
def nextInString : Reader UInt8 := do
  match ← next with
  | some b => pure b
  | none => fail .endInString

/-- Looks at the next octet of a string, which must not end here. -/
def peekInString : Reader UInt8 := do
  match ← peek with
  | some b => pure b
  | none => fail .endInString

/-- Four hexadecimal digits; all four are taken before they are looked into. -/
def readHexUnit : Reader Nat := do
  let a ← nextInString
  let b ← nextInString
  let c ← nextInString
  let d ← nextInString
  match [a, b, c, d].mapM hexValue? with
  | some ds => return ds.foldl (16 * · + ·) 0
  | none => fail .invalidEscape

/-- The character of the escape letter `b`, for escapes of one letter. -/
def letterEscape? (b : UInt8) : Option Char :=
  if b = octet '"' then some '"'
  else if b = octet '\\' then some '\\'
  else if b = octet '/' then some '/'
  else if b = octet 'b' then some '\x08'
  else if b = octet 'f' then some '\x0c'
  else if b = octet 'n' then some '\n'
  else if b = octet 'r' then some '\r'
  else if b = octet 't' then some '\t'
  else none

/-- Takes one octet that a surrogate pair needs between its halves. -/
def readJoint (c : Char) : Reader Unit := do
  let b ← peekInString
  discard
  if b = octet c then pure () else fail .unfinishedPair

/-- The character of one unit of UTF-16, or of two that form a surrogate pair. -/
def readUnitEscape : Reader Char := do
  let first ← readHexUnit
  if 0xDC00 ≤ first ∧ first ≤ 0xDFFF then fail .loneSurrogate
  else if first < 0xD800 ∨ 0xDBFF < first then pure (Char.ofNat first)
  else
    readJoint '\\'
    readJoint 'u'
    let second ← readHexUnit
    if second < 0xDC00 ∨ 0xDFFF < second then fail .loneSurrogate
    else pure (Char.ofNat ((first - 0xD800) * 0x400 + (second - 0xDC00) + 0x10000))

/-- The character of an escape, after its backslash. -/
def readEscape : Reader Char := do
  let b ← nextInString
  match letterEscape? b with
  | some c => pure c
  | none => if b = octet 'u' then readUnitEscape else fail .invalidEscape

/-- One step through a string, whose contents so far are held backwards. -/
def stringStep (seen : List UInt8) : Reader (List UInt8 ⊕ List UInt8) := do
  let b ← nextInString
  if b = octet '"' then return .inr seen
  else if b = octet '\\' then
    let c ← readEscape
    return .inl ((String.utf8EncodeChar c).reverse ++ seen)
  else if b < 0x20 then fail .controlCharacter
  else return .inl (b :: seen)

/-- The text of the contents of a string whose closing quote has just been taken. A malformed octet
is reported as many columns before the quote as contents are left from it on. -/
def textOfContents (contents : List UInt8) : Reader String := do
  match Text.decode? contents with
  | some s => pure s
  | none =>
    let here := (← get).place
    let left := contents.length - Text.validLength contents
    throw ⟨.malformedText, some ⟨here.line, here.column - left⟩⟩

/-- Reads a string after its opening quote. -/
def readString : Reader String := do
  let seen ← rounds stringStep []
  textOfContents seen.reverse

/-- One step through a string that is skipped; its octets need not be UTF-8 nor its surrogates
paired. -/
def skipStringStep (_ : Unit) : Reader (Unit ⊕ Unit) := do
  let b ← nextInString
  if b = octet '"' then return .inr ()
  else if b = octet '\\' then
    let e ← nextInString
    if (letterEscape? e).isSome then return .inl ()
    else if e = octet 'u' then
      let _ ← readHexUnit
      return .inl ()
    else fail .invalidEscape
  else if b < 0x20 then fail .controlCharacter
  else return .inl ()

/-- Skips a string after its opening quote. -/
def skipString : Reader Unit :=
  rounds skipStringStep ()

end Emblem.Json
