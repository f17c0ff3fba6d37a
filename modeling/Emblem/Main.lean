/-
Module: Emblem.Main
Purpose: The program: it runs the command line on the file system of the machine.
Main exports: main
-/
import Emblem.CommandLine.Run
import Emblem.Raster.Png

open Emblem Emblem.Files

namespace Emblem.Machine

/-- The refusal of a request to the machine. -/
def troubleOf : IO.Error → Trouble
  | .noFileOrDirectory .. => .noEntry
  | .alreadyExists .. => .exists
  | .inappropriateType _ code details =>
    if code = 20 then .notDirectory else if code = 21 then .isDirectory
    else .other code.toNat details
  | .invalidArgument (some _) code details =>
    if code = 36 then .nameTooLong else if code = 22 then .nulByte else .other code.toNat details
  | .permissionDenied _ code details => .other code.toNat details
  | .resourceExhausted _ code details => .other code.toNat details
  | .otherError code details => .other code.toNat details
  | e => .other 0 (toString e)

/-- A request to the machine, with its refusal as a result. -/
def attempt {α : Type} (request : IO α) : IO (Except Trouble α) := do
  try
    return .ok (← request)
  catch e =>
    return .error (troubleOf e)

/-- The octets that a file is to hold. -/
def octetsOf : Content → ByteArray
  | .octets data => ⟨data.toArray⟩
  | .picture p => p.toPng

instance : Storage IO where
  read path := do
    match ← attempt (IO.FS.Handle.mk path .read) with
    | .error trouble => return .error (.opening trouble)
    | .ok handle =>
      match ← attempt handle.readBinToEnd with
      | .error trouble => return .error (.reading trouble)
      | .ok data => return .ok data.data.toList
  makeDirectory path := attempt (IO.FS.createDir path)
  isDirectory path := do
    match ← attempt (IO.FS.createDir (path ++ "/.")) with
    | .error .exists => return true
    | _ => return false
  write path content := attempt (IO.FS.writeBinFile path (octetsOf content))

end Emblem.Machine

/-- Runs the program on its arguments. -/
def main (arguments : List String) : IO UInt32 := do
  let outcome ← (CommandLine.run arguments : IO CommandLine.Outcome)
  IO.print outcome.stdout
  IO.eprint outcome.stderr
  return outcome.exitCode.toUInt32
