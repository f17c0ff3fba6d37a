/-
Module: Emblem.Text.Quoted
Purpose: Texts in double quotes for messages, with everything spelled out that could not be read
  off the page.
Main exports: escapeLetters, quotedChar, quoted
-/
import Emblem.Text.Unprintable

namespace Emblem.Text

/-- The lower-case hexadecimal digits of a natural. -/
def hexDigits (n : Nat) : List Char :=
  Nat.toDigits 16 n

/-- The letters that stand for characters after a backslash in quoted texts, where zero has one too. -/
def escapeLetters : List (Char × Char) :=
  [('"', '"'), ('\\', '\\'), ('\n', 'n'), ('\r', 'r'), ('\t', 't'), ('\x00', '0')]

/-- A character inside quotes. -/
def quotedChar (c : Char) : List Char :=
  match escapeLetters.lookup c with
  | some letter => ['\\', letter]
  | none =>
    if isUnprintable c then '\\' :: 'u' :: '\x7b' :: hexDigits c.toNat ++ ['\x7d'] else [c]

def quoted (s : String) : String :=
  String.ofList ('"' :: s.toList.flatMap quotedChar ++ ['"'])

end Emblem.Text
