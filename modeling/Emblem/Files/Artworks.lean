/-
Module: Emblem.Files.Artworks
Purpose: Writing the two drawings of an artwork into a directory.
Main exports: FileNames, FileNames.standard, WrittenPaths, Artwork.write
-/
import Emblem.Artwork
import Emblem.Files.Storage
import Emblem.Text.Utf8

namespace Emblem

open Files

/-- The names of the two files of an artwork. -/
structure FileNames where
  still : String
  moving : String
deriving DecidableEq, Repr

/-- The names that are used when none are given. -/
def FileNames.standard : FileNames := ⟨"hexlogo.svg", "hexlogo_active.svg"⟩

/-- The paths of the two files of an artwork. -/
structure WrittenPaths where
  still : String
  moving : String
deriving DecidableEq, Repr

/-- The paths of files in a directory. -/
def WrittenPaths.under (directory : String) (names : FileNames) : WrittenPaths :=
  ⟨join directory names.still, join directory names.moving⟩

variable {m : Type → Type} [Monad m] [Storage m]

def writeDrawing (path text : String) : m (Except Error Unit) := do
  match ← Storage.write path (.octets (Text.encode text)) with
  | .ok () => return .ok ()
  | .error trouble => return .error (.drawingNotWritten path trouble)

/-- Makes a directory that something is to be written to. -/
def makeTarget (directory : String) : m (Except Error Unit) := do
  match ← makeDirectories directory with
  | .ok () => return .ok ()
  | .error trouble => return .error (.directoryNotMade directory trouble)

/-- Writes the drawing at rest and then the animated one into a directory, which is made if it is
not there. -/
def Artwork.write (a : Artwork) (directory : String) (names : FileNames) :
    m (Except Error WrittenPaths) :=
  let paths := WrittenPaths.under directory names
  ExceptT.run do
    ExceptT.mk (makeTarget directory)
    ExceptT.mk (writeDrawing paths.still a.still)
    ExceptT.mk (writeDrawing paths.moving a.moving)
    return paths

end Emblem
