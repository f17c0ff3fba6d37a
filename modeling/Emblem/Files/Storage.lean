/-
Module: Emblem.Files.Storage
Purpose: What the program asks of a file system, whatever the file system is, and making a directory
  together with those above it.
Main exports: Content, ReadTrouble, Storage, makeDirectories
-/
import Emblem.Files.Path
import Emblem.Files.Trouble
import Emblem.Raster.Picture

namespace Emblem.Files

/-- What a file holds. -/
inductive Content where
  | octets (data : List UInt8)
  /-- An encoded picture. -/
  | picture (p : Picture)

/-- Why a file cannot be read: it cannot be opened, or not be read once it is open. -/
inductive ReadTrouble where
  | opening (trouble : Trouble)
  | reading (trouble : Trouble)
deriving DecidableEq, Repr

/-- A file system that actions of `m` work on. -/
class Storage (m : Type → Type) where
  /-- The octets of a file. -/
  read : String → m (Except ReadTrouble (List UInt8))
  /-- Makes a directory in one that is there. -/
  makeDirectory : String → m (Except Trouble Unit)
  /-- Whether a path leads to a directory. -/
  isDirectory : String → m Bool
  /-- Makes a file or replaces the contents of one. -/
  write : String → Content → m (Except Trouble Unit)

variable {m : Type → Type} [Monad m] [Storage m]

/-- Goes up, making the first directory that can be made or is there, and gives back those below it
that are still to be made, the uppermost first. -/
def climb : List String → List String → m (Except Trouble (List String))
  | [], missing => return .ok missing
  | path :: up, missing => do
    match ← Storage.makeDirectory path with
    | .ok () => return .ok missing
    | .error .noEntry => climb up (path :: missing)
    | .error .exists =>
      if ← Storage.isDirectory path then return .ok missing else return .error .exists
    | .error trouble => return .error trouble

/-- Makes directories in order; one that is there already is passed over. -/
def descend : List String → m (Except Trouble Unit)
  | [] => return .ok ()
  | path :: rest => do
    match ← Storage.makeDirectory path with
    | .ok () => descend rest
    | .error .exists =>
      if ← Storage.isDirectory path then descend rest else return .error .exists
    | .error trouble => return .error trouble

/-- Makes a directory and those above it that are missing. -/
def makeDirectories (path : String) : m (Except Trouble Unit) := do
  match ← climb (ancestors path) [] with
  | .ok missing => descend missing
  | .error trouble => return .error trouble

end Emblem.Files
