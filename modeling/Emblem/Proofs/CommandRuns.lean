/-
Module: Emblem.Proofs.CommandRuns
Purpose: Commands on a file system, stage by stage. A design is loaded first, then everything is worked
  out, and only what is worked out is written; the first two do not change the file system.
Main exports: CommandLine.designAt, CommandLine.DesignSource.design, CommandLine.animations,
  CommandLine.picture, CommandLine.run_prepared, CommandLine.run_timeline, CommandLine.run_generate,
  CommandLine.run_preview
-/
import Emblem.Proofs.Independence
import Emblem.Proofs.WrittenDrawings

namespace Emblem.CommandLine

open Files

/-- The design at a path of a file system, and the standard one without a path. -/
def designAt (path : Option String) (fs : FileSystem) : Except Failure Design :=
  match path with
  | none => .ok .standard
  | some path => (Design.ofRead path (fs.read path)).mapError (Failure.ofLoading path)

namespace DesignSource

/-- A loaded design with the policy that was asked for. -/
def settle (source : DesignSource) (d : Design) : Design :=
  match source.policy with
  | some policy => { d with loopPolicy := policy }
  | none => d

/-- The design that a source stands for, in a file system. -/
def design (source : DesignSource) (fs : FileSystem) : Except Failure Design :=
  (designAt source.path fs).map source.settle

end DesignSource

/-- What is printed of a design that is to be animated. -/
def animations (d : Design) : Except Error Printed := do
  let a ← Artwork.ofDesign d
  let document ← timelineToJson a
  return ⟨document.indented ++ "\n", ""⟩

/-- The picture of a design's drawing at rest. -/
def picture (d : Design) (scale : Float32) : Except Error Picture := do
  let text ← previewText d
  rasterize text scale

/-- Writes a picture into a directory that is made if it is not there. -/
def placePicture {m : Type → Type} [Monad m] [Storage m] (out : String) (p : Picture) :
    Action m Printed := do
  match parent? out with
  | some directory =>
    if !directory.isEmpty then ofWork (makeTarget directory)
  | none => pure ()
  ofWork (writePicture out p)
  return ⟨"", wroteLine out⟩

/-- Writes the drawings of an artwork. -/
def placeDrawings {m : Type → Type} [Monad m] [Storage m] (a : Artwork) (directory : String)
    (names : FileNames) : Action m Printed := do
  let written ← ofWork (a.write directory names)
  return ⟨"", wroteLine written.still ++ wroteLine written.moving⟩

/-! ### Stages of a command -/

section Stages

variable {α β : Type}

/-- After work on files inside a command, the command goes on with its result and in the file system that
it leaves. -/
theorem run_lift (work : StateM FileSystem α) (f : α → Action (StateM FileSystem) β)
    (fs : FileSystem) :
    (ExceptT.run ((liftM work : Action (StateM FileSystem) α) >>= f)).run fs =
      (ExceptT.run (f (work.run fs).1)).run (work.run fs).2 :=
  rfl

/-- Loading a design reads the file system and leaves it as it is. -/
theorem run_loadDesign (source : DesignSource) (fs : FileSystem) :
    (ExceptT.run (loadDesign source : Action (StateM FileSystem) Design)).run fs =
      (source.design fs, fs) := by
  obtain ⟨path, policy⟩ := source
  cases path with
  | none => cases policy <;> rfl
  | some path =>
      have read : (Design.load path : StateM FileSystem (Except Error Design)).run fs =
          (Design.ofRead path (fs.read path), fs) := rfl
      dsimp only [loadDesign, DesignSource.design, designAt]
      rw [run_lift, read]
      cases Design.ofRead path (fs.read path) with
      | error e => rfl
      | ok d => cases policy <;> rfl

/-- A command goes on with the design that it has loaded. -/
theorem run_load (source : DesignSource) (f : Design → Action (StateM FileSystem) β)
    (fs : FileSystem) :
    (ExceptT.run (loadDesign source >>= f)).run fs =
      match source.design fs with
      | .ok d => (ExceptT.run (f d)).run fs
      | .error failure => (.error failure, fs) := by
  have stages := run_stages (x := ExceptT.run (loadDesign source)) (f := f) fs
  rw [run_loadDesign] at stages
  refine Eq.trans stages ?_
  cases source.design fs <;> rfl

/-- What is worked out inside a command does not change the file system either. -/
theorem run_compute (r : Except Error α) (f : α → Action (StateM FileSystem) β) (fs : FileSystem) :
    (ExceptT.run (ofExcept r >>= f)).run fs =
      match r with
      | .ok a => (ExceptT.run (f a)).run fs
      | .error e => (.error (.ofError e), fs) := by
  cases r <;> rfl

/-- What is worked out in two steps may as well be worked out in one. -/
theorem ofExcept_bind {γ : Type} (r : Except Error α) (work : α → Except Error β)
    (f : β → Action (StateM FileSystem) γ) :
    ofExcept (r >>= work) >>= f = ofExcept r >>= fun a => ofExcept (work a) >>= f := by
  cases r <;> rfl

/-- A command that works something out of its design goes on with that, and has changed nothing till
then. -/
theorem run_prepared (source : DesignSource) (work : Design → Except Error α)
    (f : α → Action (StateM FileSystem) β) (fs : FileSystem) :
    (ExceptT.run (loadDesign source >>= fun d => ofExcept (work d) >>= f)).run fs =
      match source.design fs >>= fun d => (work d).mapError Failure.ofError with
      | .ok a => (ExceptT.run (f a)).run fs
      | .error failure => (.error failure, fs) := by
  rw [run_load]
  cases source.design fs with
  | error failure => rfl
  | ok d =>
      refine Eq.trans (run_compute (work d) f fs) ?_
      change _ = match (work d).mapError Failure.ofError with
        | .ok a => (ExceptT.run (f a)).run fs
        | .error failure => (.error failure, fs)
      cases work d <;> rfl

end Stages

/-! ### Whole requests -/

/-- Arguments that make sense are run as what they ask for. -/
theorem run_of_request {arguments : List String} {request : Request}
    (parsed : Request.ofArguments? arguments = some request) :
    (run arguments : StateM FileSystem Outcome) = request.run := by
  rw [run, parsed]

/-- A timeline is printed of the design alone, and no file is changed. -/
theorem run_timeline (source : DesignSource) (fs : FileSystem) :
    ((Request.timeline source).run : StateM FileSystem Outcome).run fs =
      (Outcome.ofResult (source.design fs >>= fun d => (animations d).mapError Failure.ofError),
        fs) := by
  have command : (printTimeline source : Action (StateM FileSystem) Printed) =
      loadDesign source >>= fun d => ofExcept (animations d) >>= pure := by
    unfold printTimeline animations
    simp only [ofExcept_bind]
    rfl
  simp only [Request.run, StateT.run_bind, command, run_prepared]
  cases source.design fs >>= fun d => (animations d).mapError Failure.ofError <;> rfl

/-- Drawings are written once the artwork is made. -/
theorem run_generate (source : DesignSource) (directory : String) (names : FileNames)
    (fs : FileSystem) :
    ((Request.generate source directory names).run : StateM FileSystem Outcome).run fs =
      match source.design fs >>= fun d => (Artwork.ofDesign d).mapError Failure.ofError with
      | .error failure => (Outcome.ofResult (.error failure), fs)
      | .ok a =>
          (Outcome.ofResult <$>
            (ExceptT.run (placeDrawings a directory names) : StateM FileSystem _)).run fs := by
  have command : (writeDrawings source directory names : Action (StateM FileSystem) Printed) =
      loadDesign source >>= fun d =>
        ofExcept (Artwork.ofDesign d) >>= fun a => placeDrawings a directory names := rfl
  simp only [Request.run, StateT.run_bind, command, run_prepared]
  cases source.design fs >>= fun d => (Artwork.ofDesign d).mapError Failure.ofError <;> rfl

/-- A preview is the picture of the drawing at rest, and places it once there is one. -/
theorem run_preview (source : DesignSource) (out : String) (scale : Float32) (fs : FileSystem) :
    ((Request.preview source out scale).run : StateM FileSystem Outcome).run fs =
      match source.design fs >>= fun d => (picture d scale).mapError Failure.ofError with
      | .error failure => (Outcome.ofResult (.error failure), fs)
      | .ok p =>
          (Outcome.ofResult <$> (ExceptT.run (placePicture out p) : StateM FileSystem _)).run fs := by
  have command : (writePreview source out scale : Action (StateM FileSystem) Printed) =
      loadDesign source >>= fun d => ofExcept (picture d scale) >>= placePicture out := by
    unfold picture
    rw [writePreview_eq]
    simp only [ofExcept_bind]
    rfl
  simp only [Request.run, StateT.run_bind, command, run_prepared]
  cases source.design fs >>= fun d => (picture d scale).mapError Failure.ofError <;> rfl

end Emblem.CommandLine
