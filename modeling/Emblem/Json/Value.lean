/-
Module: Emblem.Json.Value
Purpose: Documents to be written, as trees, with two printers: one without any space and one that
  gives every element and member a line of its own.
Main exports: Value, Value.compact, Value.indented
-/
import Emblem.Number.Layout

namespace Emblem.Json

/-- A document to be written; the members of an object are written in the order given. -/
inductive Value where
  | natural (n : Nat)
  | float (x : Float)
  | text (s : String)
  | list (elements : List Value)
  | object (members : List (String × Value))

/-- The letters that stand for characters after a backslash in a document. -/
def escapeLetters : List (Char × Char) :=
  [('"', '"'), ('\\', '\\'), ('\x08', 'b'), ('\x0c', 'f'), ('\n', 'n'), ('\r', 'r'), ('\t', 't')]

/-- A character inside a string. -/
def escapeChar (c : Char) : List Char :=
  match escapeLetters.lookup c with
  | some letter => ['\\', letter]
  | none =>
    if c.toNat < 0x20 then
      ['\\', 'u', '0', '0', Nat.digitChar (c.toNat / 16), Nat.digitChar (c.toNat % 16)]
    else [c]

def quote (s : String) : String :=
  String.ofList ('"' :: s.toList.flatMap escapeChar ++ ['"'])

namespace Value

mutual

/-- Writes a document without any space. -/
def compact : Value → String
  | natural n => toString n
  | float x => Number.json x
  | text s => quote s
  | list elements => "[" ++ ",".intercalate (compactElements elements) ++ "]"
  | object members => "\x7b" ++ ",".intercalate (compactMembers members) ++ "\x7d"

def compactElements : List Value → List String
  | [] => []
  | v :: vs => compact v :: compactElements vs

def compactMembers : List (String × Value) → List String
  | [] => []
  | (name, v) :: rest => (quote name ++ ":" ++ compact v) :: compactMembers rest

end

/-- A new line, indented by two spaces for each level. -/
def newLine (level : Nat) : String :=
  String.ofList ('\n' :: List.replicate (2 * level) ' ')

/-- The parts of a container between its marks, each on its own line; nothing if there are none. -/
def lines (level : Nat) : List String → String
  | [] => ""
  | parts =>
    newLine (level + 1) ++ ("," ++ newLine (level + 1)).intercalate parts ++ newLine level

mutual

/-- Writes a document that stands in so many containers; the lines of its parts are indented by one level
more, that of its closing mark by as many. -/
def indentedAt (level : Nat) : Value → String
  | natural n => toString n
  | float x => Number.json x
  | text s => quote s
  | list elements => "[" ++ lines level (indentedElements (level + 1) elements) ++ "]"
  | object members => "\x7b" ++ lines level (indentedMembers (level + 1) members) ++ "\x7d"

def indentedElements (level : Nat) : List Value → List String
  | [] => []
  | v :: vs => indentedAt level v :: indentedElements level vs

def indentedMembers (level : Nat) : List (String × Value) → List String
  | [] => []
  | (name, v) :: rest => (quote name ++ ": " ++ indentedAt level v) :: indentedMembers level rest

end

/-- Writes a document with a line for every element and member. -/
def indented (v : Value) : String :=
  indentedAt 0 v

end Value

end Emblem.Json
