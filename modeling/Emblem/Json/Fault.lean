/-
Module: Emblem.Json.Fault
Purpose: Why a JSON document is refused, where, and in which words.
Main exports: Found, Cause, Place, Fault, Fault.message
-/
import Emblem.Color
import Emblem.Files.Trouble
import Emblem.Number.Layout
import Emblem.Text.Quoted

namespace Emblem.Json

/-- What a document holds where something else was asked for. -/
inductive Found where
  | null
  | boolean (value : Bool)
  | integer (value : Int)
  | float (value : Float)
  | text (value : String)
  | list
  | object
  /-- A bare variant name where the variant has contents. -/
  | bareVariant
deriving Repr

def Found.describe : Found → String
  | null => "null"
  | boolean b => "boolean `" ++ (if b then "true" else "false") ++ "`"
  | integer n => "integer `" ++ toString n ++ "`"
  | float x => "floating point `" ++ Number.json x ++ "`"
  | text s => "string " ++ Text.quoted s
  | list => "sequence"
  | object => "map"
  | bareVariant => "unit variant"

/-- Why a document is refused. -/
inductive Cause where
  /-- The document ends inside a value. -/
  | endInValue
  | endInString
  | endInList
  | endInObject
  | expectedColon
  | expectedListCommaOrEnd
  | expectedObjectCommaOrEnd
  /-- One of the words `null`, `true` and `false` is misspelt. -/
  | expectedWord
  | expectedValue
  | invalidEscape
  | invalidNumber
  | numberOutOfRange
  /-- The octets of a string are not UTF-8. -/
  | malformedText
  | controlCharacter
  | keyMustBeString
  /-- The two escapes of a surrogate pair do not fit together. -/
  | loneSurrogate
  | unfinishedPair
  | trailingComma
  | trailingCharacters
  /-- The value is of another kind than the one asked for. -/
  | wrongType (found : Found) (expected : String)
  /-- The value is of the right kind but outside its range. -/
  | wrongValue (found : Found) (expected : String)
  | wrongLength (length : Nat) (expected : String)
  | unknownVariant (name : String) (known : List String)
  | unknownField (name : String) (known : List String)
  | missingField (name : String)
  | duplicateField (name : String)
  | badColor (fault : Color.Fault)
  /-- The document cannot be read from where it is stored. -/
  | unreadable (trouble : Files.Trouble)
deriving Repr

def ticked (name : String) : String :=
  "`" ++ name ++ "`"

/-- The names that would have been accepted. -/
def oneOf : List String → String
  | [a] => ticked a
  | [a, b] => ticked a ++ " or " ++ ticked b
  | names => "one of " ++ ", ".intercalate (names.map ticked)

def Cause.describe : Cause → String
  | endInValue => "EOF while parsing a value"
  | endInString => "EOF while parsing a string"
  | endInList => "EOF while parsing a list"
  | endInObject => "EOF while parsing an object"
  | expectedColon => "expected `:`"
  | expectedListCommaOrEnd => "expected `,` or `]`"
  | expectedObjectCommaOrEnd => "expected `,` or `\x7d`"
  | expectedWord => "expected ident"
  | expectedValue => "expected value"
  | invalidEscape => "invalid escape"
  | invalidNumber => "invalid number"
  | numberOutOfRange => "number out of range"
  | malformedText => "invalid unicode code point"
  | controlCharacter => "control character (\\u0000-\\u001F) found while parsing a string"
  | keyMustBeString => "key must be a string"
  | loneSurrogate => "lone leading surrogate in hex escape"
  | unfinishedPair => "unexpected end of hex escape"
  | trailingComma => "trailing comma"
  | trailingCharacters => "trailing characters"
  | wrongType found expected => "invalid type: " ++ found.describe ++ ", expected " ++ expected
  | wrongValue found expected => "invalid value: " ++ found.describe ++ ", expected " ++ expected
  | wrongLength n expected => "invalid length " ++ toString n ++ ", expected " ++ expected
  | unknownVariant name known => "unknown variant " ++ ticked name ++ ", expected " ++ oneOf known
  | unknownField name known => "unknown field " ++ ticked name ++ ", expected " ++ oneOf known
  | missingField name => "missing field " ++ ticked name
  | duplicateField name => "duplicate field " ++ ticked name
  | badColor fault => fault.message
  | unreadable trouble => trouble.message

/-- A line, counted from one, and a number of octets on it. -/
structure Place where
  line : Nat
  column : Nat
deriving DecidableEq, Repr

/-- A refusal; its place stays open until a reader that knows it fills it in. -/
structure Fault where
  cause : Cause
  place : Option Place
deriving Repr

def Fault.message (f : Fault) : String :=
  match f.place with
  | some p =>
    f.cause.describe ++ " at line " ++ toString p.line ++ " column " ++ toString p.column
  | none => f.cause.describe

end Emblem.Json
