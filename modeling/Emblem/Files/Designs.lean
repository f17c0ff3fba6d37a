/-
Module: Emblem.Files.Designs
Purpose: Reading designs from files.
Main exports: Design.load
-/
import Emblem.Codec.Design
import Emblem.Files.Storage

namespace Emblem

open Files

/-- The design that the octets of a file, or the trouble with them, come to. -/
def Design.ofRead (path : String) : Except ReadTrouble (List UInt8) → Except Error Design
  | .error (.opening trouble) => .error (.unopened path trouble)
  | .error (.reading trouble) => .error (.malformedDesign ⟨.unreadable trouble, none⟩)
  | .ok data => Design.ofJson data

def Design.load {m : Type → Type} [Monad m] [Storage m] (path : String) :
    m (Except Error Design) :=
  return Design.ofRead path (← Storage.read path)

end Emblem
