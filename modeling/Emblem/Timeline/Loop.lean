/-
Module: Emblem.Timeline.Loop
Purpose: Loops. Binding a timeline to its terminal step makes every step begin again at each end of
  that step, so that the whole sequence repeats.
Main exports: Loop, Loop.rebind, Loop.bind, Loop.period
-/
import Emblem.Timeline.Basic

namespace Emblem

/-- A loop: the step whose end starts the sequence again, and what becomes of that step. -/
structure Loop where
  terminal : StepId
  policy : LoopPolicy
deriving DecidableEq, Repr

namespace Loop

/-- Whether a loop leaves a step as it is. -/
def leaves (l : Loop) (s : Step) : Bool :=
  decide (s.id = l.terminal ∧ l.policy = .excludeTerminal)

/-- A step under a loop; it keeps its offset, also if it was chained before. -/
def rebind (l : Loop) (s : Step) : Step :=
  if l.leaves s then s else { s with begin := .chained s.begin.offset l.terminal }

section Rebind

variable (l : Loop) (s : Step)

@[simp] theorem rebind_id : (l.rebind s).id = s.id := by
  unfold rebind
  split <;> rfl

@[simp] theorem rebind_target : (l.rebind s).target = s.target := by
  unfold rebind
  split <;> rfl

@[simp] theorem rebind_offset : (l.rebind s).begin.offset = s.begin.offset := by
  unfold rebind
  split <;> rfl

@[simp] theorem rebind_duration : (l.rebind s).duration = s.duration := by
  unfold rebind
  split <;> rfl

end Rebind

/-- Binds a timeline; with it comes the number of steps that the loop does not leave out. -/
def bind (l : Loop) (t : Timeline) : Except Error (Nat × Timeline) :=
  match t.get? l.terminal with
  | none => .error (.foreignTerminal l.terminal)
  | some _ =>
    .ok ((t.steps.filter fun s => !l.leaves s).length, { t with steps := t.steps.map l.rebind })

/-- How long a cycle takes: until the terminal step ends. -/
def period (l : Loop) (t : Timeline) : Except Error Float :=
  match t.get? l.terminal with
  | none => .error (.unknownTerminal l.terminal)
  | some s => .ok s.finish

end Loop

end Emblem
