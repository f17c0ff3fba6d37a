/-
Module: Emblem.Text.Utf8
Purpose: Texts as octets in UTF-8, and how far a run of octets is well formed.
Main exports: encode, decode?, validLength
-/

namespace Emblem.Text

def encode (s : String) : List UInt8 :=
  s.toUTF8.data.toList

/-- The text of which these are the octets. -/
def decode? (octets : List UInt8) : Option String :=
  String.fromUTF8? ⟨octets.toArray⟩

/-- The length of the longest well-formed run at the start. -/
def validLength (octets : List UInt8) : Nat :=
  ((List.range (octets.length + 1)).reverse.find? fun n => (decode? (octets.take n)).isSome).getD 0

theorem encode_append (s t : String) : encode (s ++ t) = encode s ++ encode t := by
  simp [encode]

end Emblem.Text
