/-
Module: Emblem.Files.Path
Purpose: Paths as texts: joining them, cutting off their last name, and the directories on the way
  to one.
Main exports: join, parent?, ancestors
-/

namespace Emblem.Files

/-- Whether a path starts at the root. -/
def isAbsolute (path : String) : Bool :=
  path.toList.head? == some '/'

/-- A path continued by another; an absolute one replaces it. -/
def join (path more : String) : String :=
  if isAbsolute more || path.isEmpty then more
  else if path.toList.getLast? == some '/' then path ++ more
  else path ++ "/" ++ more

/-- The names between the slashes of a path, empty ones included. -/
def names (path : List Char) : List (List Char) :=
  match path with
  | [] => [[]]
  | c :: rest =>
    if c = '/' then [] :: names rest
    else
      match names rest with
      | [] => [[c]]
      | name :: more => (c :: name) :: more

/-- Cuts off, from the end of a reversed path, what names nothing: slashes, and single dots that
follow a slash. -/
def dropEmptyNames : List Char → List Char
  | '/' :: c :: rest => dropEmptyNames (c :: rest)
  | '.' :: '/' :: c :: rest => dropEmptyNames (c :: rest)
  | cs => cs

/-- Cuts off the last name of a reversed path. -/
def dropName (cs : List Char) : List Char :=
  cs.dropWhile (· ≠ '/')

/-- The path without its last name, if it has one. -/
def parent? (path : String) : Option String :=
  let cs := dropEmptyNames path.toList.reverse
  let cs := match cs with
    | ['.', '/'] => ['/']
    | cs => cs
  if cs = [] ∨ cs = ['/'] then none
  else
    let up := dropEmptyNames (dropName cs)
    some (String.ofList (match up with
      | ['.', '/'] => ['/']
      | up => up).reverse)

/-- The first `n` paths on the way up from a path, if there are so many. -/
def ancestorsWithin : Nat → String → List String
  | 0, _ => []
  | n + 1, path =>
    match parent? path with
    | none => []
    | some up => path :: ancestorsWithin n up

/-- The paths on the way up from a path, starting with it, as long as they name something. Each step up
cuts characters off, so a path has no more of them than characters. -/
def ancestors (path : String) : List String :=
  ancestorsWithin (path.length + 1) path

end Emblem.Files
