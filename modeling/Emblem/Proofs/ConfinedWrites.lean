/-
Module: Emblem.Proofs.ConfinedWrites
Purpose: Which files the writing of an artwork touches. Making directories touches none, and each
  drawing goes to the one file that its path leads to, the drawing at rest first. So wherever the
  writing stops, the other files are as they were, and what has been written stays.
Main exports: FileSystem.ChangesOnly, FileSystem.LeadsTo, Files.SparesFiles,
  Files.sparesFiles_makeDirectories, Artwork.Confined, Artwork.write_confined
-/
import Emblem.Proofs.WrittenDrawings
import Mathlib.Data.Set.Insert

namespace Emblem

open Files Text

namespace Files

/-! ### What changes between two file systems -/

namespace FileSystem

/-- A path leads to the file at a location. -/
def LeadsTo (fs : FileSystem) (path : String) (l : Location) : Prop :=
  ∃ content, fs.find path = .ok (l, .file content)

theorem Grows.leadsTo {fs after : FileSystem} (grows : fs.Grows after) {path : String} {l : Location}
    (leads : fs.LeadsTo path l) : after.LeadsTo path l := by
  obtain ⟨c, found⟩ := leads
  obtain ⟨_, _, there, _⟩ := find_eq_ok_file_iff.1 found
  obtain ⟨c', now⟩ := grows.file l c there
  exact ⟨c', grows.find found now⟩

/-- From one file system to another, files change at some places only. Elsewhere each file is as it
was and none is new, and nowhere a file or a directory goes. -/
structure ChangesOnly (fs : FileSystem) (places : Set Location) (after : FileSystem) : Prop
    extends fs.Grows after where
  elsewhere : ∀ l, l ∉ places → ∀ c,
    after.occupant? l = some (.file c) ↔ fs.occupant? l = some (.file c)

namespace ChangesOnly

variable {fs between after : FileSystem} {places others : Set Location}

theorem refl (fs : FileSystem) (places : Set Location) : fs.ChangesOnly places fs where
  toGrows := .refl fs
  elsewhere _ _ _ := Iff.rfl

theorem trans (first : fs.ChangesOnly places between) (second : between.ChangesOnly others after) :
    fs.ChangesOnly (places ∪ others) after where
  toGrows := first.toGrows.trans second.toGrows
  elsewhere l outside c := by
    rw [Set.mem_union, not_or] at outside
    exact (second.elsewhere l outside.2 c).trans (first.elsewhere l outside.1 c)

theorem mono (changes : fs.ChangesOnly places after) (more : places ⊆ others) :
    fs.ChangesOnly others after where
  toGrows := changes.toGrows
  elsewhere l outside := changes.elsewhere l fun inside => outside (more inside)

/-- A path to a file at another place leads there still, and finds the same contents. -/
theorem find (changes : fs.ChangesOnly places after) {path : String} {l : Location} {c : Content}
    (found : fs.find path = .ok (l, .file c)) (outside : l ∉ places) :
    after.find path = .ok (l, .file c) := by
  obtain ⟨_, _, there, _⟩ := find_eq_ok_file_iff.1 found
  exact changes.toGrows.find found ((changes.elsewhere l outside c).2 there)

end ChangesOnly

section Put

variable {fs after : FileSystem} {l : Location} {path : String}

theorem changesOnly_put_file (free : fs.occupant? l ≠ some .directory) (c : Content) :
    fs.ChangesOnly {l} (fs.put l (.file c)) where
  toGrows := grows_put_file free c
  elsewhere other outside content := by
    have apart : other ≠ l := outside
    rw [fs.occupant?_put (ne_nil_of_not_directory free), if_neg apart]

/-- A directory where nothing was changes no file. -/
theorem changesOnly_put_directory (free : fs.occupant? l = none) :
    fs.ChangesOnly ∅ (fs.put l .directory) := by
  have below : l ≠ [] := by
    rintro rfl
    cases free
  have kept : ∀ other e, fs.occupant? other = some e →
      (fs.put l .directory).occupant? other = some e := by
    intro other e there
    have apart : other ≠ l := by
      rintro rfl
      rw [free] at there
      cases there
    rw [fs.occupant?_put below, if_neg apart]
    exact there
  have grows : fs.Grows (fs.put l .directory) :=
    ⟨rfl, fun other there => kept other _ there, fun other c there => ⟨c, kept other _ there⟩⟩
  refine ⟨grows, fun other _ c => ⟨?_, kept other _⟩⟩
  intro there
  rw [fs.occupant?_put below] at there
  split at there
  · cases there
  · exact there

/-- A directory is made where nothing was. -/
theorem makeDirectory_eq_ok (made : fs.makeDirectory path = .ok after) :
    ∃ l, fs.occupant? l = none ∧ after = fs.put l .directory := by
  obtain ⟨⟨dir, slot⟩, _, rest⟩ := bind_eq_ok_iff.1 made
  cases slot with
  | none => cases rest
  | some name =>
      simp only at rest
      by_cases long : nameLimit < name.utf8ByteSize
      · rw [if_pos long] at rest
        cases rest
      · rw [if_neg long] at rest
        cases free : fs.occupant? (name :: dir) with
        | some e =>
            rw [free] at rest
            cases rest
        | none =>
            rw [free] at rest
            cases rest
            exact ⟨name :: dir, free, rfl⟩

/-- A file that is written changes at the place that its path leads to from then on. -/
theorem changesOnly_of_write {c : Content} (written : fs.write path c = .ok after) :
    ∃ l, fs.ChangesOnly {l} after ∧ after.find path = .ok (l, .file c) := by
  obtain ⟨l, free, rfl, found, _⟩ := find_of_write written
  exact ⟨l, changesOnly_put_file free c, found⟩

end Put

end FileSystem

/-! ### Making directories -/

/-- An action that changes no file, whatever it is run on and however it ends. -/
def SparesFiles {α : Type} (x : StateM FileSystem α) : Prop :=
  ∀ fs : FileSystem, fs.ChangesOnly ∅ (x.run fs).2

namespace SparesFiles

variable {α β : Type}

theorem pure (a : α) : SparesFiles (Pure.pure a : StateM FileSystem α) :=
  fun fs => .refl fs ∅

theorem bind {x : StateM FileSystem α} {f : α → StateM FileSystem β} (first : SparesFiles x)
    (second : ∀ a, SparesFiles (f a)) : SparesFiles (x >>= f) := by
  intro fs
  rw [StateT.run_bind, ← Set.union_empty ∅]
  exact (first fs).trans (second _ _)

end SparesFiles

theorem sparesFiles_makeDirectory (path : String) :
    SparesFiles (Storage.makeDirectory path : StateM FileSystem (Except Trouble Unit)) := by
  intro fs
  have request : (Storage.makeDirectory path : StateM FileSystem (Except Trouble Unit)).run fs = _ :=
    run_change (·.makeDirectory path) fs
  rw [request]
  cases made : fs.makeDirectory path with
  | error trouble => exact .refl fs ∅
  | ok after =>
      obtain ⟨l, free, rfl⟩ := FileSystem.makeDirectory_eq_ok made
      exact FileSystem.changesOnly_put_directory free

theorem sparesFiles_isDirectory (path : String) :
    SparesFiles (Storage.isDirectory path : StateM FileSystem Bool) :=
  fun fs => .refl fs ∅

/-- Going up to a directory that is there or can be made changes no file. -/
theorem sparesFiles_climb (up missing : List String) :
    SparesFiles (climb up missing : StateM FileSystem (Except Trouble (List String))) := by
  induction up generalizing missing with
  | nil => exact .pure _
  | cons path up ih =>
      unfold climb
      apply SparesFiles.bind (sparesFiles_makeDirectory path)
      intro answer
      cases answer with
      | ok _ => exact .pure _
      | error trouble =>
          cases trouble with
          | noEntry => exact ih (path :: missing)
          | «exists» =>
              apply SparesFiles.bind (sparesFiles_isDirectory path)
              intro there
              cases there <;> exact .pure _
          | nulByte | notDirectory | isDirectory | nameTooLong | other => exact .pure _

/-- Nor does making the directories on the way back. -/
theorem sparesFiles_descend (missing : List String) :
    SparesFiles (descend missing : StateM FileSystem (Except Trouble Unit)) := by
  induction missing with
  | nil => exact .pure _
  | cons path rest ih =>
      unfold descend
      apply SparesFiles.bind (sparesFiles_makeDirectory path)
      intro answer
      cases answer with
      | ok _ => exact ih
      | error trouble =>
          cases trouble with
          | «exists» =>
              apply SparesFiles.bind (sparesFiles_isDirectory path)
              intro there
              cases there with
              | true => exact ih
              | false => exact .pure _
          | noEntry | nulByte | notDirectory | isDirectory | nameTooLong | other => exact .pure _

/-- A directory is made, with those above it, without a change to any file. -/
theorem sparesFiles_makeDirectories (path : String) :
    SparesFiles (makeDirectories path : StateM FileSystem (Except Trouble Unit)) := by
  unfold makeDirectories
  apply SparesFiles.bind (sparesFiles_climb (ancestors path) [])
  intro answer
  cases answer with
  | ok missing => exact sparesFiles_descend missing
  | error trouble => exact .pure _

/-- Making a directory and those above it changes no file. -/
theorem FileSystem.changesOnly_makePath {fs made : FileSystem} {path : String}
    {answer : Except Trouble Unit} (target : fs.makePath path = (answer, made)) :
    fs.ChangesOnly ∅ made := by
  have spared : fs.ChangesOnly ∅ (fs.makePath path).2 := sparesFiles_makeDirectories path fs
  rw [target] at spared
  exact spared

end Files

/-! ### Writing an artwork -/

namespace Artwork

/-- What the writing of an artwork does to files, and how far it has come where it stops. -/
structure Confined (a : Artwork) (directory : String) (names : FileNames) (fs : FileSystem)
    (result : Except Error WrittenPaths) (after : FileSystem) : Prop where
  /-- However it ends, files change only where the two paths lead then. They lead where they led
  before, but directories that are made may open one that led nowhere. -/
  targets : fs.ChangesOnly {l | after.LeadsTo (join directory names.still) l ∨
    after.LeadsTo (join directory names.moving) l} after
  /-- The directory is not made: no file has changed. -/
  noDirectory : ∀ trouble made, fs.makePath directory = (.error trouble, made) →
    result = .error (.directoryNotMade directory trouble) ∧ fs.ChangesOnly ∅ after
  /-- The drawing at rest is not written: no file has changed, and if there was one for the other
  drawing, its path still finds it as it was. -/
  noStill : ∀ trouble made, fs.makePath directory = (.ok (), made) →
    made.write (join directory names.still) (.octets (encode a.still)) = .error trouble →
    result = .error (.drawingNotWritten (join directory names.still) trouble) ∧
      fs.ChangesOnly ∅ after ∧
      ∀ l c, fs.find (join directory names.moving) = .ok (l, .file c) →
        after.find (join directory names.moving) = .ok (l, .file c)
  /-- The animated drawing alone is not written: the drawing at rest is, and no other file has
  changed. -/
  noMoving : ∀ trouble made between, fs.makePath directory = (.ok (), made) →
    made.write (join directory names.still) (.octets (encode a.still)) = .ok between →
    between.write (join directory names.moving) (.octets (encode a.moving)) = .error trouble →
    result = .error (.drawingNotWritten (join directory names.moving) trouble) ∧
      fs.ChangesOnly {l | after.LeadsTo (join directory names.still) l} after ∧
      after.read (join directory names.still) = .ok (encode a.still)
  written : ∀ made between last, fs.makePath directory = (.ok (), made) →
    made.write (join directory names.still) (.octets (encode a.still)) = .ok between →
    between.write (join directory names.moving) (.octets (encode a.moving)) = .ok last →
    result = .ok (.under directory names) ∧ after = last

section Stops

variable {a : Artwork} {directory : String} {names : FileNames} {fs made between after : FileSystem}
  {result : Except Error WrittenPaths}

/-- One file is written in a directory that has been made: it alone has changed. -/
theorem changesOnly_of_target {answer : Except Trouble Unit} {path : String} {c : Content}
    (target : fs.makePath directory = (answer, made)) (one : made.write path c = .ok between) :
    fs.ChangesOnly {l | between.LeadsTo path l} between := by
  obtain ⟨l, changes, found⟩ := FileSystem.changesOnly_of_write one
  apply ((FileSystem.changesOnly_makePath target).trans changes).mono
  rw [Set.empty_union, Set.singleton_subset_iff]
  exact ⟨c, found⟩

theorem changesOnly_of_ends (ends : a.Ends directory names fs result after) :
    fs.ChangesOnly {l | after.LeadsTo (join directory names.still) l ∨
      after.LeadsTo (join directory names.moving) l} after := by
  cases ends with
  | noDirectory target => exact (FileSystem.changesOnly_makePath target).mono (Set.empty_subset _)
  | noStill target still => exact (FileSystem.changesOnly_makePath target).mono (Set.empty_subset _)
  | noMoving target still moving =>
      exact (changesOnly_of_target target still).mono fun l leads => .inl leads
  | written target still moving =>
      obtain ⟨place, changes, found⟩ := FileSystem.changesOnly_of_write moving
      apply ((changesOnly_of_target target still).trans changes).mono
      -- The first path leads to its file still, which may be the one that is written now.
      rintro l (leads | rfl)
      · exact .inl (changes.leadsTo leads)
      · exact .inr ⟨_, found⟩

end Stops

/-- Writing an artwork touches the two files that it is to be written to and no others, the drawing at
rest first. -/
theorem write_confined (a : Artwork) (directory : String) (names : FileNames) (fs : FileSystem) :
    ∃ result after,
      (a.write directory names : StateM FileSystem (Except Error WrittenPaths)).run fs =
        (result, after) ∧
      a.Confined directory names fs result after := by
  obtain ⟨result, after, ran⟩ : ∃ result after,
      (a.write directory names : StateM FileSystem (Except Error WrittenPaths)).run fs =
        (result, after) := ⟨_, _, rfl⟩
  refine ⟨result, after, ran, changesOnly_of_ends (run_write_eq_iff.1 ran), ?_, ?_, ?_, ?_⟩
  · intro trouble made target
    cases ran.symm.trans (run_write_eq_iff.2 (.noDirectory target))
    exact ⟨rfl, FileSystem.changesOnly_makePath target⟩
  · intro trouble made target still
    cases ran.symm.trans (run_write_eq_iff.2 (.noStill target still))
    have spared := FileSystem.changesOnly_makePath target
    exact ⟨rfl, spared, fun l c found => spared.find found (Set.notMem_empty l)⟩
  · intro trouble made between target still moving
    cases ran.symm.trans (run_write_eq_iff.2 (.noMoving target still moving))
    obtain ⟨l, _, found⟩ := FileSystem.changesOnly_of_write still
    exact ⟨rfl, changesOnly_of_target target still, FileSystem.read_of_find found⟩
  · intro made between last target still moving
    cases ran.symm.trans (run_write_eq_iff.2 (.written target still moving))
    exact ⟨rfl, rfl⟩

/-- A file where the directory should be. -/
def occupied : FileSystem :=
  .plant .empty [] "out" "notes"

/-- A directory where a drawing should be. -/
def crowded : FileSystem :=
  .plant .empty [] "out/drawing.svg/notes" "notes"

/-- Each of the three stops. -/
theorem write_confined_stopped :
    (∃ after, (sketch.write "/out" .standard :
          StateM FileSystem (Except Error WrittenPaths)).run occupied =
        (.error (.directoryNotMade "/out" .exists), after) ∧
      occupied.ChangesOnly ∅ after) ∧
    (∃ after, (sketch.write "/out" ⟨"drawing.svg", "moving.svg"⟩ :
          StateM FileSystem (Except Error WrittenPaths)).run crowded =
        (.error (.drawingNotWritten "/out/drawing.svg" .isDirectory), after) ∧
      crowded.ChangesOnly ∅ after) ∧
    ∃ after, (sketch.write "/out" ⟨"still.svg", "drawing.svg"⟩ :
          StateM FileSystem (Except Error WrittenPaths)).run crowded =
        (.error (.drawingNotWritten "/out/drawing.svg" .isDirectory), after) ∧
      crowded.ChangesOnly {l | after.LeadsTo "/out/still.svg" l} after ∧
      after.read "/out/still.svg" = .ok (encode sketch.still) := by
  refine ⟨?_, ?_, ?_⟩
  · obtain ⟨result, after, ran, confined⟩ := write_confined sketch "/out" .standard occupied
    obtain ⟨rfl, unchanged⟩ := confined.noDirectory .exists occupied rfl
    exact ⟨after, ran, unchanged⟩
  · obtain ⟨result, after, ran, confined⟩ :=
      write_confined sketch "/out" ⟨"drawing.svg", "moving.svg"⟩ crowded
    obtain ⟨rfl, unchanged, _⟩ := confined.noStill .isDirectory crowded rfl rfl
    exact ⟨after, ran, unchanged⟩
  · obtain ⟨result, after, ran, confined⟩ :=
      write_confined sketch "/out" ⟨"still.svg", "drawing.svg"⟩ crowded
    obtain ⟨rfl, changed, still⟩ := confined.noMoving .isDirectory crowded _ rfl rfl rfl
    exact ⟨after, ran, changed, still⟩

end Artwork

end Emblem
