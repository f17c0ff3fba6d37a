/-
Module: Emblem.Svg.Element
Purpose: Drawings as trees of elements, and their text: attributes in the order of their names,
  every child on a line of its own.
Main exports: nameSpace, Element, Element.attribute?, Element.text
-/

namespace Emblem.Svg

def nameSpace : String := "http://www.w3.org/2000/svg"

/-- An element with its attributes and what it contains. -/
inductive Element where
  | mk (name : String) (attributes : List (String × String)) (children : List Element)
deriving Repr

namespace Element

def name : Element → String
  | mk name _ _ => name

/-- The element's attributes, in no particular order. -/
def attributes : Element → List (String × String)
  | mk _ attributes _ => attributes

def children : Element → List Element
  | mk _ _ children => children

def attribute? (e : Element) (name : String) : Option String :=
  e.attributes.lookup name

/-- The element with more children after its own. -/
def append (e : Element) (more : List Element) : Element :=
  .mk e.name e.attributes (e.children ++ more)

/-- Inserts an attribute before those whose names come after its own. -/
def insertByName (a : String × String) : List (String × String) → List (String × String)
  | [] => [a]
  | b :: rest => if a.1 < b.1 then a :: b :: rest else b :: insertByName a rest

/-- Attributes in the order of their names. -/
def sortByName (attributes : List (String × String)) : List (String × String) :=
  attributes.foldr insertByName []

/-- An attribute in a tag. The values drawn are numbers, colours, ids and fixed words, which need no
escapes. -/
def attributeText (a : String × String) : String :=
  " " ++ a.1 ++ "=\"" ++ a.2 ++ "\""

/-- An opening tag without its closing mark. -/
def tagText (name : String) (attributes : List (String × String)) : String :=
  "<" ++ name ++ String.join ((sortByName attributes).map attributeText)

mutual

def text : Element → String
  | mk name attributes [] => tagText name attributes ++ "/>"
  | mk name attributes (child :: rest) =>
    tagText name attributes ++ ">" ++ childrenText (child :: rest) ++ "\n</" ++ name ++ ">"

/-- Children, each on a line of its own. -/
def childrenText : List Element → String
  | [] => ""
  | child :: rest => "\n" ++ text child ++ childrenText rest

end

end Element

end Emblem.Svg
