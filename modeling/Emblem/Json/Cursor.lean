/-
Module: Emblem.Json.Cursor
Purpose: A position in a document of octets. An octet that has only been looked at counts towards
  the place that faults report, as if it had been taken.
Main exports: Cursor, Cursor.start, Cursor.look, Cursor.take, Cursor.takeWhile, Cursor.place
-/
import Emblem.Json.Fault

namespace Emblem.Json

/-- The rest of a document and the place reached by the octets taken before it. -/
structure Cursor where
  rest : List UInt8
  taken : Place
  /-- Whether the first octet of the rest has been looked at. -/
  ahead : Bool
deriving DecidableEq, Repr

/-- The octet that ends a line. -/
def lineEnd : UInt8 := 10

/-- The place after one more octet. -/
def Place.after (p : Place) (b : UInt8) : Place :=
  if b = lineEnd then ⟨p.line + 1, 0⟩ else ⟨p.line, p.column + 1⟩

namespace Cursor

/-- The start of a document. -/
def start (document : List UInt8) : Cursor :=
  ⟨document, ⟨1, 0⟩, false⟩

/-- The place that a fault found here reports. -/
def place (c : Cursor) : Place :=
  match c.ahead, c.rest with
  | true, b :: _ => c.taken.after b
  | _, _ => c.taken

/-- The next octet, which stays in the rest. -/
def look (c : Cursor) : Option UInt8 × Cursor :=
  match c.rest with
  | [] => (none, c)
  | b :: _ => (some b, { c with ahead := true })

/-- The next octet, which leaves the rest. -/
def take (c : Cursor) : Option UInt8 × Cursor :=
  match c.rest with
  | [] => (none, c)
  | b :: rest => (some b, ⟨rest, c.taken.after b, false⟩)

/-- The run of octets of one sort, after which the next octet is looked at. -/
def takeWhile (sort : UInt8 → Bool) (c : Cursor) : List UInt8 × Cursor :=
  let run := c.rest.takeWhile sort
  (run, ⟨c.rest.dropWhile sort, run.foldl Place.after c.taken, true⟩)

end Cursor

end Emblem.Json
