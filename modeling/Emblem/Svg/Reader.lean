/-
Module: Emblem.Svg.Reader
Purpose: Reading the text of a drawing back into elements. Every part of a document is checked, and
  what is not drawn is then dropped: character data, comments, instructions and the document type,
  which may not have declarations of its own.
Main exports: isSeparator, Element.ofText?
-/
import Emblem.Color
import Emblem.Svg.Element

namespace Emblem.Svg

/-! Characters and names. -/

/-- The characters that separate the parts of a tag. -/
def isSeparator (c : Char) : Bool :=
  c == ' ' || c == '\t' || c == '\n' || c == '\r'

/-- The characters that a document may hold. -/
def isDocumentChar (c : Char) : Bool :=
  if c.toNat < 0x20 then isSeparator c else c.toNat != 0xFFFE && c.toNat != 0xFFFF

/-- The code points beyond ASCII that names may start with, as closed ranges. -/
def nameStartRanges : List (Nat × Nat) :=
  [(0xC0, 0xD6), (0xD8, 0xF6), (0xF8, 0x2FF), (0x370, 0x37D), (0x37F, 0x1FFF), (0x200C, 0x200D),
   (0x2070, 0x218F), (0x2C00, 0x2FEF), (0x3001, 0xD7FF), (0xF900, 0xFDCF), (0xFDF0, 0xFFFD),
   (0x10000, 0xEFFFF)]

/-- The code points beyond ASCII that names may hold further on, as closed ranges. -/
def nameMarkRanges : List (Nat × Nat) :=
  [(0xB7, 0xB7), (0x300, 0x36F), (0x203F, 0x2040)]

/-- Whether a character is in one of the ranges. -/
def isWithin (ranges : List (Nat × Nat)) (c : Char) : Bool :=
  ranges.any fun (first, last) => first ≤ c.toNat && c.toNat ≤ last

/-- The characters that each part of a name may start with. -/
def isNameStart (c : Char) : Bool :=
  c.isAlpha || c == '_' || isWithin nameStartRanges c

/-- The characters of names, the colon apart. -/
def isNameChar (c : Char) : Bool :=
  isNameStart c || c.isDigit || c == '-' || c == '.' || isWithin nameMarkRanges c

/-- Whether a name has the right form: one part, or two with a colon between, the first of which may
be missing. -/
def isName (cs : List Char) : Bool :=
  let starts (part : List Char) : Bool := part.head?.any isNameStart
  match cs.splitOn ':' with
  | [part] => starts part
  | [space, part] => (space.isEmpty || starts space) && starts part
  | _ => false

/-- A name. -/
def readName? (cs : List Char) : Option (String × List Char) :=
  let sort (c : Char) : Bool := isNameChar c || c == ':'
  let name := cs.takeWhile sort
  if isName name then some (String.ofList name, cs.dropWhile sort) else none

/-! Text and references. -/

/-- The text before the first place where `mark` occurs, and the text after that mark. -/
def splitAt? (mark : List Char) : List Char → Option (List Char × List Char)
  | [] => none
  | c :: cs =>
    if mark.isPrefixOf (c :: cs) then some ([], (c :: cs).drop mark.length)
    else (splitAt? mark cs).map fun (before, rest) => (c :: before, rest)

/-- Whether `mark` occurs in a text. -/
def occurs (mark cs : List Char) : Bool :=
  (splitAt? mark cs).isSome

/-- The characters that have names of their own. -/
def namedChars : List (String × Char) :=
  [("quot", '"'), ("amp", '&'), ("apos", '\''), ("lt", '<'), ("gt", '>')]

/-- The character with a number, given in digits; a number that no character has stands for the
replacement character. -/
def numberedChar? (base : Nat) (digit? : Char → Option Nat) (ds : List Char) : Option Char := do
  let n ← ds.foldlM (fun n d => (digit? d).map (base * n + ·)) 0
  if ds.isEmpty ∨ Nat.pow 2 32 ≤ n then none
  let c := if n.isValidChar then Char.ofNat n else '\uFFFD'
  if isDocumentChar c then some c else none

def decimalDigit? (c : Char) : Option Nat :=
  if c.isDigit then some (c.toNat - '0'.toNat) else none

/-- The character that a reference stands for, after its mark, and the text after the reference. -/
def readReference? (cs : List Char) : Option (Char × List Char) := do
  let (body, rest) ← splitAt? [';'] cs
  let c ← match body with
    | '#' :: 'x' :: ds => numberedChar? 16 Color.hexDigit? ds
    | '#' :: ds => numberedChar? 10 decimalDigit? ds
    | name => namedChars.lookup (String.ofList name)
  return (c, rest)

/-- A text with what its references stand for; at most so many characters are read. -/
def resolveWithin? : Nat → List Char → Option (List Char)
  | _, [] => some []
  | 0, _ => none
  | n + 1, '&' :: cs => do
    let (c, rest) ← readReference? cs
    return c :: (← resolveWithin? n rest)
  | n + 1, c :: cs => do
    return c :: (← resolveWithin? n cs)

/-- A text with what its references stand for. -/
def resolve? (cs : List Char) : Option (List Char) :=
  resolveWithin? cs.length cs

/-- Whether character data has the right form: no end of a literal section, and references that
stand for characters. -/
def isData (cs : List Char) : Bool :=
  !occurs "]]>".toList cs && (resolve? cs).isSome

/-! What is dropped. -/

/-- The text after a comment, which is read after its opening mark. Two hyphens stand only at its
end. -/
def afterComment? (cs : List Char) : Option (List Char) := do
  let (text, rest) ← splitAt? "-->".toList cs
  if occurs "--".toList (text ++ ['-']) then none else some rest

/-- The text after an instruction, which is read after its opening mark. -/
def afterInstruction? (cs : List Char) : Option (List Char) := do
  if "xml ".toList.isPrefixOf cs then none
  let (_, rest) ← readName? cs
  let (_, rest) ← splitAt? "?>".toList rest
  return rest

/-- Skips separators, comments and instructions, at most so many of them; what has not the right
form is left. -/
def skipAround : Nat → List Char → List Char
  | 0, cs => cs
  | n + 1, cs =>
    let cs := cs.dropWhile isSeparator
    let rest? :=
      if "<!--".toList.isPrefixOf cs then afterComment? (cs.drop 4)
      else if "<?".toList.isPrefixOf cs then afterInstruction? (cs.drop 2)
      else none
    match rest? with
    | some rest => skipAround n rest
    | none => cs

/-! Tags. -/

/-- A text in quotes of either kind. -/
def readQuoted? : List Char → Option (List Char × List Char)
  | q :: cs => if q = '"' ∨ q = '\'' then splitAt? [q] cs else none
  | [] => none

/-- The value of an attribute. A separator in it counts as a space. -/
def readValue? (cs : List Char) : Option (String × List Char) := do
  let (text, rest) ← readQuoted? cs
  if text.contains '<' then none
  let value ← resolve? (text.map fun c => if isSeparator c then ' ' else c)
  return (String.ofList value, rest)

/-- The attributes of a tag, each after a separator and each name once; at most so many. -/
def readAttributes? : Nat → List Char → Option (List (String × String) × List Char)
  | 0, cs => some ([], cs.dropWhile isSeparator)
  | n + 1, cs =>
    match cs, readName? (cs.dropWhile isSeparator) with
    | c :: _, some (name, rest) =>
      if isSeparator c then
        match rest.dropWhile isSeparator with
        | '=' :: rest => do
          let (value, rest) ← readValue? (rest.dropWhile isSeparator)
          let (others, rest) ← readAttributes? n rest
          if (others.lookup name).isSome then none
          return ((name, value) :: others, rest)
        | _ => none
      else none
    | _, _ => some ([], cs.dropWhile isSeparator)

/-- The text after the declaration that a document may start with: the version, and then at most
the encoding and whether the document stands alone. -/
def afterDeclaration? (cs : List Char) : Option (List Char) :=
  if "<?xml ".toList.isPrefixOf cs then do
    let rest := cs.drop 5
    let (attributes, rest) ← readAttributes? rest.length rest
    let names := attributes.map Prod.fst
    if names.head? = some "version" ∧ names.tail.isSublist ["encoding", "standalone"] ∧
        "?>".toList.isPrefixOf rest then
      some (rest.drop 2)
    else none
  else some cs

/-- The text after the reference to a definition kept elsewhere, if there is one. -/
def afterExternal? (cs : List Char) : Option (List Char) :=
  let quoted? (cs : List Char) : Option (List Char) := do
    if cs.head?.any isSeparator then
      let (_, rest) ← readQuoted? (cs.dropWhile isSeparator)
      return rest
    else none
  if "SYSTEM".toList.isPrefixOf cs then quoted? (cs.drop 6)
  else if "PUBLIC".toList.isPrefixOf cs then (quoted? (cs.drop 6)).bind quoted?
  else some cs

/-- The text after the document type, if there is one. -/
def afterType? (cs : List Char) : Option (List Char) :=
  if "<!DOCTYPE".toList.isPrefixOf cs then
    match cs.drop 9 with
    | c :: rest => do
      if !isSeparator c then none
      let (_, rest) ← readName? (rest.dropWhile isSeparator)
      match (← afterExternal? (rest.dropWhile isSeparator)).dropWhile isSeparator with
      | '>' :: rest => some rest
      | _ => none
    | [] => none
  else some cs

/-! Elements. -/

mutual

/-- An element after the mark that opens its tag; the first argument bounds the parts read. -/
def readElement? : Nat → List Char → Option (Element × List Char)
  | 0, _ => none
  | n + 1, cs => do
    let (name, rest) ← readName? cs
    let (attributes, rest) ← readAttributes? rest.length rest
    match rest with
    | '/' :: '>' :: rest => return (.mk name attributes [], rest)
    | '>' :: rest =>
      let (children, rest) ← readContents? n name rest
      return (.mk name attributes children, rest)
    | _ => none

/-- The contents of an element up to and with the tag that closes it. -/
def readContents? : Nat → String → List Char → Option (List Element × List Char)
  | 0, _, _ => none
  | n + 1, name, cs =>
    if isData (cs.takeWhile (· ≠ '<')) then
      match cs.dropWhile (· ≠ '<') with
      | '<' :: '/' :: rest => do
        let (closed, rest) ← readName? rest
        match rest.dropWhile isSeparator with
        | '>' :: rest => if closed = name then return ([], rest) else none
        | _ => none
      | '<' :: '!' :: '-' :: '-' :: rest => do
        readContents? n name (← afterComment? rest)
      | '<' :: '!' :: rest => do
        if !"[CDATA[".toList.isPrefixOf rest then none
        let (_, rest) ← splitAt? "]]>".toList rest
        readContents? n name rest
      | '<' :: '?' :: rest => do
        readContents? n name (← afterInstruction? rest)
      | '<' :: rest => do
        let (child, rest) ← readElement? n rest
        let (others, rest) ← readContents? n name rest
        return (child :: others, rest)
      | _ => none
    else none

end

/-! Name spaces. -/

/-- The name spaces in scope, by what stands for them before the colon of a name. -/
abbrev Scope := List (String × String)

/-- The part of a name before the colon, or nothing, and the part after it. -/
def nameParts (name : String) : String × String :=
  match name.toList.splitOn ':' with
  | [space, part] => (String.ofList space, String.ofList part)
  | _ => ("", name)

/-- The name spaces that attributes declare. -/
def declarations (attributes : List (String × String)) : Scope :=
  attributes.filterMap fun (name, value) =>
    if name = "xmlns" then some ("", value)
    else match nameParts name with
      | ("xmlns", part) => some (part, value)
      | _ => none

/-- Whether what stands before a colon is declared; two words always are. -/
def isDeclared (scope : Scope) (space : String) : Bool :=
  space == "" || space == "xml" || space == "xmlns" || (scope.lookup space).isSome

mutual

/-- The element with names that are free of name spaces. The name of an element that belongs to
another name space than that of drawings is dropped; all that stands before a colon must be
declared. -/
def bind? (scope : Scope) : Element → Option Element
  | .mk name attributes children => do
    let scope := declarations attributes ++ scope
    let (space, part) := nameParts name
    if !isDeclared scope space then none
    if !attributes.all fun a => isDeclared scope (nameParts a.1).1 then none
    let children ← bindAll? scope children
    return .mk (if scope.lookup space = some nameSpace then part else "") attributes children

/-- Children with names that are free of name spaces. -/
def bindAll? (scope : Scope) : List Element → Option (List Element)
  | [] => some []
  | child :: rest => do
    return (← bind? scope child) :: (← bindAll? scope rest)

end

def Element.ofText? (s : String) : Option Element := do
  let cs := s.toList
  if !cs.all isDocumentChar then none
  let cs := if cs.head? = some '\uFEFF' then cs.tail else cs
  let rest ← afterDeclaration? cs
  let rest ← afterType? (skipAround rest.length rest)
  match skipAround rest.length rest with
  | '<' :: rest =>
    let (e, rest) ← readElement? cs.length rest
    if (skipAround rest.length rest).isEmpty then bind? [] e else none
  | _ => none

end Emblem.Svg
