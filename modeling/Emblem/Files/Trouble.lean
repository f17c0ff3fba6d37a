/-
Module: Emblem.Files.Trouble
Purpose: Why the operating system refuses a request on files.
Main exports: Trouble, Trouble.message
-/

namespace Emblem.Files

/-- A refusal of the operating system. -/
inductive Trouble where
  /-- A name holds the character that ends names. -/
  | nulByte
  | noEntry
  | exists
  | notDirectory
  | isDirectory
  | nameTooLong
  /-- Any other refusal, by its number and text. -/
  | other (code : Nat) (text : String)
deriving DecidableEq, Repr

/-- The number and text of a refusal, if it has a number. -/
def Trouble.code? : Trouble → Option (Nat × String)
  | nulByte => none
  | noEntry => some (2, "No such file or directory")
  | .exists => some (17, "File exists")
  | notDirectory => some (20, "Not a directory")
  | isDirectory => some (21, "Is a directory")
  | nameTooLong => some (36, "File name too long")
  | other code text => some (code, text)

def Trouble.message (t : Trouble) : String :=
  match t.code? with
  | some (code, text) => text ++ " (os error " ++ toString code ++ ")"
  | none => "file name contained an unexpected NUL byte"

end Emblem.Files
