/-
Module: Emblem.Proofs.WrittenDrawings
Purpose: What the two files of an artwork hold once both are written. The animated drawing is written
  last, so a file that both names lead to holds that one, and the drawing at rest is lost.
Main exports: FileSystem.SameFile, Artwork.Ends, Artwork.run_write_eq_iff, Artwork.write_holds_iff,
  Artwork.write_loses_still, Artwork.read_of_write
-/
import Emblem.Files.Artworks
import Emblem.Proofs.FileContents

namespace Emblem

open Files Text

/-! ### Stages that change a state -/

section Stages

variable {ε σ α β : Type} {x : StateM σ (Except ε α)} {f : α → ExceptT ε (StateM σ) β}

theorem run_stages (s : σ) :
    (ExceptT.run (ExceptT.mk x >>= f)).run s =
      match x.run s with
      | (.ok a, between) => (ExceptT.run (f a)).run between
      | (.error e, between) => (.error e, between) := by
  unfold StateT.run ExceptT.run
  change StateT.bind x (ExceptT.bindCont f) s = _
  unfold StateT.bind
  simp only [bind]
  cases x s with
  | mk result between => cases result <;> rfl

end Stages

/-- A change of the file system, as an action: what is refused changes nothing. -/
theorem Files.run_change (f : FileSystem → Except Trouble FileSystem) (fs : FileSystem) :
    (change f).run fs =
      match f fs with
      | .ok changed => (.ok (), changed)
      | .error trouble => (.error trouble, fs) := by
  cases made : f fs with
  | error trouble =>
      simp only [change, StateT.run_bind, StateT.run_get, pure_bind, made]
      rfl
  | ok changed =>
      simp only [change, StateT.run_bind, StateT.run_get, pure_bind, made]
      rfl

theorem run_writeDrawing (path text : String) (fs : FileSystem) :
    (writeDrawing path text : StateM FileSystem (Except Error Unit)).run fs =
      match fs.write path (.octets (encode text)) with
      | .ok written => (.ok (), written)
      | .error trouble => (.error (.drawingNotWritten path trouble), fs) := by
  have stored : (Storage.write path (.octets (encode text)) : StateM FileSystem _).run fs = _ :=
    run_change (·.write path (.octets (encode text))) fs
  simp only [writeDrawing, StateT.run_bind]
  rw [stored]
  cases fs.write path (.octets (encode text)) <;> rfl

/-- What comes of making a directory and those above it that are missing. -/
def Files.FileSystem.makePath (fs : FileSystem) (path : String) : Except Trouble Unit × FileSystem :=
  (makeDirectories path : StateM FileSystem (Except Trouble Unit)).run fs

theorem run_makeTarget (directory : String) (fs : FileSystem) :
    (makeTarget directory : StateM FileSystem (Except Error Unit)).run fs =
      match fs.makePath directory with
      | (.ok (), made) => (.ok (), made)
      | (.error trouble, made) => (.error (.directoryNotMade directory trouble), made) := by
  rw [makeTarget, StateT.run_bind, FileSystem.makePath]
  cases (makeDirectories directory : StateM FileSystem (Except Trouble Unit)).run fs with
  | mk answer made => cases answer <;> rfl

theorem Text.encode_injective : Function.Injective encode := by
  intro s t same
  apply String.toByteArray_inj.1
  apply ByteArray.ext
  exact Array.toList_inj.1 same

/-- Two paths lead to one file. -/
def Files.FileSystem.SameFile (fs : FileSystem) (p q : String) : Prop :=
  ∃ place content, fs.find p = .ok (place, .file content) ∧ fs.find q = .ok (place, .file content)

namespace Artwork

/-- An artwork is written by making its directory, and then writing its drawings one after the other;
the first of these to be refused ends it. -/
theorem run_write (a : Artwork) (directory : String) (names : FileNames) (fs : FileSystem) :
    (a.write directory names : StateM FileSystem (Except Error WrittenPaths)).run fs =
      match fs.makePath directory with
      | (.error trouble, made) => (.error (.directoryNotMade directory trouble), made)
      | (.ok (), made) =>
        match made.write (join directory names.still) (.octets (encode a.still)) with
        | .error trouble =>
          (.error (.drawingNotWritten (join directory names.still) trouble), made)
        | .ok between =>
          match between.write (join directory names.moving) (.octets (encode a.moving)) with
          | .error trouble =>
            (.error (.drawingNotWritten (join directory names.moving) trouble), between)
          | .ok after => (.ok (.under directory names), after) := by
  unfold write
  simp only [run_stages, run_makeTarget, run_writeDrawing]
  cases fs.makePath directory with
  | mk answer made =>
      cases answer with
      | error trouble => rfl
      | ok _ =>
          simp only [WrittenPaths.under]
          cases made.write (join directory names.still) (.octets (encode a.still)) with
          | error trouble => rfl
          | ok between =>
              simp only
              cases between.write (join directory names.moving) (.octets (encode a.moving)) <;> rfl

/-- How the writing of an artwork ends, with what it leaves: at the first of its requests that is
refused, or with both drawings written. -/
inductive Ends (a : Artwork) (directory : String) (names : FileNames) (fs : FileSystem) :
    Except Error WrittenPaths → FileSystem → Prop where
  | noDirectory {trouble : Trouble} {made : FileSystem}
      (target : fs.makePath directory = (.error trouble, made)) :
      Ends a directory names fs (.error (.directoryNotMade directory trouble)) made
  | noStill {trouble : Trouble} {made : FileSystem}
      (target : fs.makePath directory = (.ok (), made))
      (still : made.write (join directory names.still) (.octets (encode a.still)) =
        .error trouble) :
      Ends a directory names fs
        (.error (.drawingNotWritten (join directory names.still) trouble)) made
  | noMoving {trouble : Trouble} {made between : FileSystem}
      (target : fs.makePath directory = (.ok (), made))
      (still : made.write (join directory names.still) (.octets (encode a.still)) = .ok between)
      (moving : between.write (join directory names.moving) (.octets (encode a.moving)) =
        .error trouble) :
      Ends a directory names fs
        (.error (.drawingNotWritten (join directory names.moving) trouble)) between
  | written {made between after : FileSystem}
      (target : fs.makePath directory = (.ok (), made))
      (still : made.write (join directory names.still) (.octets (encode a.still)) = .ok between)
      (moving : between.write (join directory names.moving) (.octets (encode a.moving)) =
        .ok after) :
      Ends a directory names fs (.ok (.under directory names)) after

variable {a : Artwork} {directory : String} {names : FileNames} {fs after : FileSystem}
  {paths : WrittenPaths} {result : Except Error WrittenPaths}

/-- Every run ends in one of these ways, and each of them is how it ends wherever its conditions hold. -/
theorem run_write_eq_iff :
    (a.write directory names : StateM FileSystem (Except Error WrittenPaths)).run fs =
      (result, after) ↔ a.Ends directory names fs result after := by
  rw [run_write]
  constructor
  · intro ran
    cases target : fs.makePath directory with
    | mk answer made =>
        rw [target] at ran
        cases answer with
        | error trouble =>
            cases ran
            exact .noDirectory target
        | ok _ =>
            simp only at ran
            cases still : made.write (join directory names.still) (.octets (encode a.still)) with
            | error trouble =>
                rw [still] at ran
                cases ran
                exact .noStill target still
            | ok between =>
                simp only [still] at ran
                cases moving :
                    between.write (join directory names.moving) (.octets (encode a.moving)) with
                | error trouble =>
                    rw [moving] at ran
                    cases ran
                    exact .noMoving target still moving
                | ok last =>
                    rw [moving] at ran
                    cases ran
                    exact .written target still moving
  · intro ends
    cases ends with
    | noDirectory target => simp only [target]
    | noStill target still => simp only [target, still]
    | noMoving target still moving => simp only [target, still, moving]
    | written target still moving => simp only [target, still, moving]

/-- What a written artwork has passed: its directory was made, and after it both files. -/
theorem write_eq_ok
    (written : (a.write directory names : StateM FileSystem (Except Error WrittenPaths)).run fs =
      (.ok paths, after)) :
    paths = .under directory names ∧ ∃ made between,
      fs.makePath directory = (.ok (), made) ∧
      made.write paths.still (.octets (encode a.still)) = .ok between ∧
      between.write paths.moving (.octets (encode a.moving)) = .ok after := by
  cases run_write_eq_iff.1 written with
  | written target still moving => exact ⟨rfl, _, _, target, still, moving⟩

/-- Of two files written one after the other, the second is found as it was written, and the first
one too unless it is the same file. Their places have the last names of their paths. -/
theorem find_of_writes {first second : String} {c d : Content} {between : FileSystem}
    (one : fs.write first c = .ok between) (two : between.write second d = .ok after) :
    ∃ place place', after.find second = .ok (place', .file d) ∧
      after.find first = .ok (place, .file (if place = place' then d else c)) ∧
      place.head? = (FileSystem.pathNames first).getLast? ∧
      place'.head? = (FileSystem.pathNames second).getLast? := by
  obtain ⟨place, _, rfl, found, name⟩ := FileSystem.find_of_write one
  obtain ⟨place', free, rfl, found', name'⟩ := FileSystem.find_of_write two
  exact ⟨place, place', found', FileSystem.find_put_file free d found, name, name'⟩

/-- After an artwork is written, both drawings are at the paths for them, if the names of the two
files do not end alike. -/
theorem read_of_write
    (written : (a.write directory names : StateM FileSystem (Except Error WrittenPaths)).run fs =
      (.ok paths, after)) {last last' : String}
    (still_name : (FileSystem.pathNames names.still).getLast? = some last)
    (moving_name : (FileSystem.pathNames names.moving).getLast? = some last') (apart : last ≠ last') :
    after.read paths.still = .ok (encode a.still) ∧
      after.read paths.moving = .ok (encode a.moving) := by
  obtain ⟨rfl, made, between, _, still, moving⟩ := write_eq_ok written
  obtain ⟨place, place', found', found, head, head'⟩ := find_of_writes still moving
  have other : place ≠ place' := by
    rintro rfl
    apply apart
    apply Option.some.inj
    calc
      some last = place.head? :=
        ((FileSystem.getLast?_pathNames_join directory still_name).symm.trans head.symm)
      _ = some last' := head'.trans (FileSystem.getLast?_pathNames_join directory moving_name)
  rw [if_neg other] at found
  exact ⟨FileSystem.read_of_find found, FileSystem.read_of_find found'⟩

/-- After an artwork is written, its animated drawing is at the path for it. The drawing at rest is
at its own path just if that path leads to another file, or both drawings are the same; else it has
been replaced. -/
theorem write_holds_iff
    (written : (a.write directory names : StateM FileSystem (Except Error WrittenPaths)).run fs =
      (.ok paths, after)) :
    paths = .under directory names ∧
      after.read paths.moving = .ok (encode a.moving) ∧
      (after.read paths.still = .ok (encode a.still) ↔
        ¬after.SameFile paths.still paths.moving ∨ a.still = a.moving) ∧
      (after.SameFile paths.still paths.moving →
        after.read paths.still = .ok (encode a.moving)) := by
  obtain ⟨under, made, between, _, still, moving⟩ := write_eq_ok written
  obtain ⟨place, place', last, first, _, _⟩ := find_of_writes still moving
  have same_iff : after.SameFile paths.still paths.moving ↔ place = place' := by
    constructor
    · rintro ⟨common, content, one, two⟩
      have here := (Prod.mk.inj (Except.ok.inj (first.symm.trans one))).1
      have there := (Prod.mk.inj (Except.ok.inj (last.symm.trans two))).1
      exact here.trans there.symm
    · rintro rfl
      rw [if_pos rfl] at first
      exact ⟨place, _, first, last⟩
  refine ⟨under, FileSystem.read_of_find last, ?_, ?_⟩
  · rw [same_iff]
    by_cases same : place = place'
    · rw [if_pos same] at first
      rw [FileSystem.read_of_find first, Except.ok.injEq, Text.encode_injective.eq_iff, eq_comm]
      simp [same]
    · rw [if_neg same] at first
      simp [same, FileSystem.read_of_find first]
  · intro same
    rw [if_pos (same_iff.1 same)] at first
    exact FileSystem.read_of_find first

/-- An artwork with two short drawings. -/
def sketch : Artwork :=
  ⟨.empty .standard, .empty .flashGreen .standard, ⟨⟨0⟩, .standard⟩, "still", "moving"⟩

theorem write_holds_iff_sketch : ∃ paths after,
    (sketch.write "/out" ⟨"still.svg", "moving.svg"⟩ :
        StateM FileSystem (Except Error WrittenPaths)).run .empty = (.ok paths, after) ∧
      paths = .under "/out" ⟨"still.svg", "moving.svg"⟩ ∧
      after.read paths.moving = .ok (encode sketch.moving) ∧
      (after.read paths.still = .ok (encode sketch.still) ↔
        ¬after.SameFile paths.still paths.moving ∨ sketch.still = sketch.moving) ∧
      (after.SameFile paths.still paths.moving →
        after.read paths.still = .ok (encode sketch.moving)) := by
  refine ⟨?paths, ?after, ?done, write_holds_iff ?done⟩
  case done => rfl

/-- Two names of one file, both accepted: the drawing at rest is gone. -/
theorem write_loses_still : ∃ paths after,
    (sketch.write "/out" ⟨"same.svg", "same.svg"⟩ :
        StateM FileSystem (Except Error WrittenPaths)).run .empty = (.ok paths, after) ∧
      after.read paths.still = .ok (encode sketch.moving) ∧
      after.read paths.still ≠ .ok (encode sketch.still) := by
  refine ⟨?paths, ?after, ?done, ?moving, ?lost⟩
  case done => rfl
  case moving => rfl
  case lost => decide

end Artwork

end Emblem
