/-
Module: Emblem.Handle
Purpose: Handles, the numbers that scenes and timelines give to what is added to them, and what an
  animation can point at. Handles are counts, and stand for numbers of 32 bits: what is proved with them
  is about scenes and timelines with fewer than 2 ^ 32 elements of each kind.
Main exports: NodeId, EdgeId, StepId, ElementRef
-/

namespace Emblem

/-- The handle of a node: how many nodes were added before it. -/
structure NodeId where
  index : Nat
deriving DecidableEq, Repr, Inhabited

/-- The handle of an edge: how many edges were added before it. -/
structure EdgeId where
  index : Nat
deriving DecidableEq, Repr

/-- The handle of an animation step: how many steps were added before it. -/
structure StepId where
  index : Nat
deriving DecidableEq, Repr

def StepId.elementId (s : StepId) : String :=
  "anim-" ++ toString s.index

/-- What an animation points at. -/
inductive ElementRef where
  | node (id : NodeId)
  | edge (id : EdgeId)
deriving DecidableEq, Repr

def ElementRef.describe : ElementRef → String
  | node id => "node#" ++ toString id.index
  | edge id => "edge#" ++ toString id.index

end Emblem
