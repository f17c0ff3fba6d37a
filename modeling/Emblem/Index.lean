/-
Module: Emblem.Index
Purpose: Indexes: finite maps from keys to the handles that a collection has given out.
Main exports: Index, Index.empty, Index.find?, Index.insert, Index.find?_insert
-/

namespace Emblem

/-- A finite map from keys to handles, by its entries. Of several entries for a key the latest one,
which stands first, counts. -/
structure Index (Key Handle : Type) where
  entries : List (Key × Handle)
deriving DecidableEq, Repr

namespace Index

variable {Key Handle : Type}

def empty : Index Key Handle :=
  ⟨[]⟩

def find? [DecidableEq Key] (x : Index Key Handle) (key : Key) : Option Handle :=
  x.entries.lookup key

/-- Gives a key its handle, in place of the one that it had. -/
def insert (x : Index Key Handle) (key : Key) (handle : Handle) : Index Key Handle :=
  ⟨(key, handle) :: x.entries⟩

/-- The empty index knows no key. -/
@[simp] theorem find?_empty [DecidableEq Key] (key : Key) :
    (empty : Index Key Handle).find? key = none := rfl

/-- An insertion changes what is found for its own key only. -/
theorem find?_insert [DecidableEq Key] (x : Index Key Handle) (key sought : Key)
    (handle : Handle) :
    (x.insert key handle).find? sought =
      if sought = key then some handle else x.find? sought := by
  by_cases same : sought = key
  · simp [find?, insert, same]
  · have differs : (sought == key) = false := by simpa using same
    simp [find?, insert, List.lookup_cons, differs, same]

end Index

end Emblem
