/-
Module: Emblem.Proofs.FileContents
Purpose: What files hold after something is written. A file takes the place of a file or of nothing,
  never that of a directory, so every path that led somewhere still leads there.
Main exports: FileSystem.occupant?_put, FileSystem.Grows, FileSystem.Grows.walk,
  FileSystem.Grows.find, FileSystem.find_put_file, FileSystem.write_eq_ok, FileSystem.read_of_find
-/
import Emblem.Files.FileSystem
import Emblem.Proofs.Outcome

namespace Emblem.Files.FileSystem

/-- What is put at a location changes that location only. -/
theorem occupant?_put (fs : FileSystem) {l : Location} (below : l ≠ []) (e : Entry)
    (other : Location) :
    (fs.put l e).occupant? other = if other = l then some e else fs.occupant? other := by
  by_cases same : other = l
  · subst same
    rw [if_pos rfl]
    exact fs.occupant?_put_self below e
  · rw [if_neg same]
    by_cases root : other = []
    · simp [occupant?, root]
    · have differs : (other == l) = false := by simpa using same
      simp only [occupant?, root, if_false, put, List.lookup_cons, differs]
      induction fs.entries with
      | nil => rfl
      | cons entry rest ih =>
          obtain ⟨place, here⟩ := entry
          by_cases kept : place = l
          · subst kept
            simpa [List.lookup_cons, differs] using ih
          · by_cases found : other = place
            · subst found
              simp [kept]
            · have skipped : (other == place) = false := by simpa using found
              simpa [List.lookup_cons, kept, skipped] using ih

/-! ### Growth -/

/-- What a file system keeps while directories are made and files are written. Every directory stays
one, and every file stays a file, with other contents perhaps. -/
structure Grows (fs after : FileSystem) : Prop where
  here : after.here = fs.here
  directory : ∀ l, fs.occupant? l = some .directory → after.occupant? l = some .directory
  file : ∀ l c, fs.occupant? l = some (.file c) → ∃ c', after.occupant? l = some (.file c')

namespace Grows

variable {fs after last : FileSystem}

theorem refl (fs : FileSystem) : fs.Grows fs where
  here := rfl
  directory _ there := there
  file _ c there := ⟨c, there⟩

theorem trans (first : fs.Grows after) (second : after.Grows last) : fs.Grows last where
  here := second.here.trans first.here
  directory l there := second.directory l (first.directory l there)
  file l c there := by
    obtain ⟨c', still⟩ := first.file l c there
    exact second.file l c' still

theorem exists_occupant? (grows : fs.Grows after) {l : Location} {e : Entry}
    (there : fs.occupant? l = some e) : ∃ e', after.occupant? l = some e' := by
  cases e with
  | directory => exact ⟨_, grows.directory l there⟩
  | file c =>
      obtain ⟨c', still⟩ := grows.file l c there
      exact ⟨_, still⟩

/-- A step along a name leads where it led before. -/
theorem enter (grows : fs.Grows after) {dir next : Location} {name : String}
    (entered : fs.enter dir name = .ok next) : after.enter dir name = .ok next := by
  unfold FileSystem.enter at entered ⊢
  cases there : fs.occupant? dir with
  | none =>
      rw [there] at entered
      cases entered
  | some e =>
      cases e with
      | file content =>
          rw [there] at entered
          cases entered
      | directory =>
          rw [grows.directory dir there]
          simp only [there] at entered
          simp only
          by_cases here : name = "."
          · simpa [here] using entered
          · by_cases up : name = ".."
            · simpa [here, up] using entered
            · by_cases long : nameLimit < name.utf8ByteSize
              · simp [here, up, long] at entered
              · simp only [here, up, long, if_false] at entered ⊢
                cases below : fs.occupant? (name :: dir) with
                | none => simp [below] at entered
                | some e =>
                    obtain ⟨e', still⟩ := grows.exists_occupant? below
                    simpa [below, still] using entered

/-- So does a walk along several names. -/
theorem walk (grows : fs.Grows after) {names : List String} {start stop : Location}
    (walked : fs.walk start names = .ok stop) : after.walk start names = .ok stop := by
  induction names generalizing start with
  | nil => exact walked
  | cons name rest ih =>
      obtain ⟨next, entered, later⟩ := bind_eq_ok_iff.1 walked
      exact bind_eq_ok_iff.2 ⟨next, grows.enter entered, ih later⟩

end Grows

section PutFile

variable {fs : FileSystem} {l : Location}

theorem ne_nil_of_not_directory (free : fs.occupant? l ≠ some .directory) : l ≠ [] := by
  rintro rfl
  exact free rfl

/-- A file system grows when a file is written. -/
theorem grows_put_file (free : fs.occupant? l ≠ some .directory) (c : Content) :
    fs.Grows (fs.put l (.file c)) where
  here := rfl
  directory dir there := by
    have apart : dir ≠ l := by
      rintro rfl
      exact free there
    rw [fs.occupant?_put (ne_nil_of_not_directory free), if_neg apart]
    exact there
  file place old there := by
    rw [fs.occupant?_put (ne_nil_of_not_directory free)]
    split
    · exact ⟨c, rfl⟩
    · exact ⟨old, there⟩

end PutFile

/-! ### Names of paths -/

theorem names_ne_nil (cs : List Char) : names cs ≠ [] := by
  cases cs with
  | nil => simp [names]
  | cons c rest =>
      unfold names
      split
      · simp
      · split <;> simp

theorem names_append_slash (cs ds : List Char) : names (cs ++ '/' :: ds) = names cs ++ names ds := by
  induction cs with
  | nil => simp [names]
  | cons c rest ih =>
      by_cases slash : c = '/'
      · simp [names, slash, ih]
      · cases first : names rest with
        | nil => exact absurd first (names_ne_nil rest)
        | cons name more => simp [names, slash, ih, first]

/-- A relative path that continues another one adds its names to those of the other. -/
theorem pathNames_join {directory more : String} (relative : isAbsolute more = false) :
    pathNames (join directory more) = pathNames directory ++ pathNames more := by
  unfold join
  by_cases empty : directory = ""
  · subst empty
    simp [pathNames, names]
  · have some_name : directory.isEmpty = false := by simpa using empty
    simp only [relative, some_name, Bool.or_self]
    by_cases slash : directory.toList.getLast? = some '/'
    · obtain ⟨cs, ends⟩ := List.getLast?_eq_some_iff.1 slash
      simp [pathNames, ends, names_append_slash, names]
    · simp [pathNames, slash, names_append_slash]

/-- Where a path has names, the last one is also that of the path joined to a directory. -/
theorem getLast?_pathNames_join (directory : String) {more name : String}
    (last : (pathNames more).getLast? = some name) :
    (pathNames (join directory more)).getLast? = some name := by
  cases absolute : isAbsolute more with
  | true => simpa [join, absolute] using last
  | false => rw [pathNames_join absolute, List.getLast?_append, last, Option.some_or]

/-! ### Paths -/

section Paths

variable {fs after : FileSystem} {path : String} {dir l : Location} {name : String}

/-- What a slot with a name has passed: its directory is there, and the name is no dots. -/
theorem findSlot_eq_ok (slot : fs.findSlot path = .ok (dir, some name)) :
    checkPath path = .ok () ∧ fs.walk (fs.origin path) (pathNames path).dropLast = .ok dir ∧
      fs.occupant? dir = some .directory ∧ (pathNames path).getLast? = some name ∧
      name ≠ "." ∧ name ≠ ".." := by
  obtain ⟨passed, further⟩ := check_bind_eq_ok_iff.1 slot
  obtain ⟨place, walked, last⟩ := bind_eq_ok_iff.1 further
  refine ⟨passed, ?_⟩
  cases there : fs.occupant? place with
  | none =>
      simp only [there] at last
      cases last
  | some e =>
      cases e with
      | file content =>
          simp only [there] at last
          cases last
      | directory =>
          simp only [there] at last
          cases lastName : (pathNames path).getLast? with
          | none =>
              simp only [lastName] at last
              cases last
          | some word =>
              simp only [lastName] at last
              by_cases dots : word = "." ∨ word = ".."
              · rw [if_pos dots] at last
                cases last
              · rw [if_neg dots] at last
                cases last
                rw [not_or] at dots
                exact ⟨walked, there, rfl, dots⟩

/-- What a written file has passed. It takes the place of a file or of nothing. -/
theorem write_eq_ok {c : Content} (written : fs.write path c = .ok after) :
    ∃ dir name, fs.findSlot path = .ok (dir, some name) ∧ endsInSlash path = false ∧
      name.utf8ByteSize ≤ nameLimit ∧ fs.occupant? (name :: dir) ≠ some .directory ∧
      after = fs.put (name :: dir) (.file c) := by
  obtain ⟨⟨dir, slot⟩, found, rest⟩ := bind_eq_ok_iff.1 written
  cases slot with
  | none => cases rest
  | some name =>
      simp only at rest
      by_cases slash : endsInSlash path
      · rw [if_pos slash] at rest
        cases rest
      · by_cases long : nameLimit < name.utf8ByteSize
        · rw [if_neg slash, if_pos long] at rest
          cases rest
        · rw [if_neg slash, if_neg long] at rest
          refine ⟨dir, name, found, by simpa using slash, by omega, ?_⟩
          cases there : fs.occupant? (name :: dir) with
          | none =>
              rw [there] at rest
              cases rest
              exact ⟨by simp, rfl⟩
          | some e =>
              cases e with
              | directory =>
                  rw [there] at rest
                  cases rest
              | file old =>
                  rw [there] at rest
                  cases rest
                  exact ⟨by simp, rfl⟩

/-- A path leads to a file. -/
theorem find_eq_ok_file_iff {c : Content} :
    fs.find path = .ok (l, .file c) ↔
      checkPath path = .ok () ∧ fs.walk (fs.origin path) (pathNames path) = .ok l ∧
        fs.occupant? l = some (.file c) ∧ endsInSlash path = false := by
  unfold find
  rw [check_bind_eq_ok_iff, bind_eq_ok_iff]
  refine and_congr_right fun _ => ?_
  constructor
  · rintro ⟨place, walked, rest⟩
    cases there : fs.occupant? place with
    | none =>
        rw [there] at rest
        cases rest
    | some e =>
        cases e with
        | directory =>
            rw [there] at rest
            cases rest
        | file content =>
            rw [there] at rest
            by_cases slash : endsInSlash path
            · simp only [slash, if_true] at rest
              cases rest
            · simp only [slash] at rest
              cases rest
              exact ⟨walked, there, by simpa using slash⟩
  · rintro ⟨walked, there, slash⟩
    refine ⟨l, walked, ?_⟩
    simp only [there, slash]
    rfl

/-- A path still leads where it led, and finds what the file there holds now. -/
theorem Grows.find (grows : fs.Grows after) {c old : Content}
    (found : fs.find path = .ok (l, .file old)) (now : after.occupant? l = some (.file c)) :
    after.find path = .ok (l, .file c) := by
  obtain ⟨passed, walked, _, slash⟩ := find_eq_ok_file_iff.1 found
  refine find_eq_ok_file_iff.2 ⟨passed, ?_, now, slash⟩
  rw [origin, grows.here]
  exact grows.walk walked

/-- So it does after a file is written. -/
theorem find_put_file (free : fs.occupant? l ≠ some .directory) (c : Content) {place : Location}
    {old : Content} (found : fs.find path = .ok (place, .file old)) :
    (fs.put l (.file c)).find path = .ok (place, .file (if place = l then c else old)) := by
  obtain ⟨_, _, there, _⟩ := find_eq_ok_file_iff.1 found
  apply (grows_put_file free c).find found
  rw [fs.occupant?_put (ne_nil_of_not_directory free)]
  split
  · rfl
  · exact there

/-- A file that was written is found under its path, and has the last name of it. -/
theorem find_of_write {c : Content} (written : fs.write path c = .ok after) :
    ∃ l, fs.occupant? l ≠ some .directory ∧ after = fs.put l (.file c) ∧
      after.find path = .ok (l, .file c) ∧ l.head? = (pathNames path).getLast? := by
  obtain ⟨dir, name, slot, slash, short, free, rfl⟩ := write_eq_ok written
  obtain ⟨passed, walked, there, last, noDot, noDots⟩ := findSlot_eq_ok slot
  refine ⟨name :: dir, free, rfl, find_eq_ok_file_iff.2 ⟨passed, ?_, ?_, slash⟩, last.symm⟩
  · have names : (pathNames path).dropLast ++ [name] = pathNames path :=
      List.dropLast_append_getLast? name last
    have self := fs.occupant?_put_self (ne_nil_of_not_directory free) (.file c)
    have grows := grows_put_file free c
    have entered : (fs.put (name :: dir) (.file c)).enter dir name = .ok (name :: dir) := by
      unfold enter
      rw [grows.directory dir there]
      simp [noDot, noDots, Nat.not_lt.2 short, self]
    rw [← names, walk, List.foldlM_append]
    exact bind_eq_ok_iff.2 ⟨dir, grows.walk walked, bind_eq_ok_iff.2 ⟨_, entered, rfl⟩⟩
  · exact fs.occupant?_put_self (ne_nil_of_not_directory free) (.file c)

theorem read_of_find {data : List UInt8} (found : fs.find path = .ok (l, .file (.octets data))) :
    fs.read path = .ok data := by
  simp only [read, found]

end Paths

end Emblem.Files.FileSystem
