/-
Module: Emblem.Cue
Purpose: Cues, the lines of a flash script: which element flashes, by its key, and when.
Main exports: Cue, Cue.Target, canonicalScript
-/
import Emblem.Key

namespace Emblem

/-- What a cue flashes. -/
inductive Cue.Target where
  | node (key : NodeKey)
  | edge (key : EdgeKey)
deriving DecidableEq, Repr

def Cue.Target.describe : Cue.Target → String
  | node key => "Node(" ++ key.describe ++ ")"
  | edge key => "Edge(" ++ key.describe ++ ")"

/-- One flash of a script. -/
structure Cue where
  target : Cue.Target
  /-- Seconds after the start of a cycle. -/
  start : Float
deriving DecidableEq, Repr

/-- The logo's own script: a pulse travels from the left fan to the right one along the upper and
the lower rim, and then again through the middle. -/
def canonicalScript : List Cue :=
  [⟨.node (.fan .left), 0.0⟩,
   ⟨.edge (.fan .left), 0.5⟩,
   ⟨.edge (.ring 2 3), 1.0⟩,
   ⟨.edge (.ring 0 2), 1.5⟩,
   ⟨.edge (.ring 3 5), 1.0⟩,
   ⟨.edge (.ring 0 5), 1.5⟩,
   ⟨.edge (.fan .right), 2.0⟩,
   ⟨.node (.fan .right), 2.5⟩,
   ⟨.node (.fan .left), 3.5⟩,
   ⟨.edge (.fan .left), 4.0⟩,
   ⟨.edge (.ring 1 3), 4.5⟩,
   ⟨.edge (.ring 0 4), 5.0⟩,
   ⟨.edge (.ring 3 4), 4.5⟩,
   ⟨.edge (.ring 0 1), 5.0⟩,
   ⟨.edge (.fan .right), 5.5⟩,
   ⟨.node (.fan .right), 6.0⟩]

end Emblem
