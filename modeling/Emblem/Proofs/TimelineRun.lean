/-
Module: Emblem.Proofs.TimelineRun
Purpose: Timelines under flashes and bindings in any order: a handle is always the place of its
  step, and a step is only ever chained to one that is there.
Main exports: Loop.bound, Loop.bind_eq_ok_iff, Timeline.flash_eq_ok_iff, Timeline.Anchored, Timeline.Act,
  Timeline.run, Timeline.Anchored.run
-/
import Emblem.Proofs.SceneIndex
import Emblem.Timeline.Loop

namespace Emblem

/-- A timeline with every step rebound. -/
def Loop.bound (l : Loop) (t : Timeline) : Timeline :=
  { t with steps := t.steps.map l.rebind }

theorem Loop.bound_get? (l : Loop) (t : Timeline) (id : StepId) :
    (l.bound t).get? id = (t.get? id).map l.rebind := by
  simp [bound, Timeline.get?]

@[simp] theorem Loop.bound_size (l : Loop) (t : Timeline) : (l.bound t).size = t.size := by
  simp [bound, Timeline.size]

/-- A loop can be bound if its terminal is there; it then rebinds every step. -/
theorem Loop.bind_eq_ok_iff {l : Loop} {t after : Timeline} {rewritten : Nat} :
    l.bind t = .ok (rewritten, after) ↔
      l.terminal.index < t.size ∧
        rewritten = (t.steps.filter fun s => !l.leaves s).length ∧
        after = l.bound t := by
  unfold Loop.bind Timeline.get? Timeline.size Loop.bound
  cases terminal : t.steps[l.terminal.index]? with
  | none =>
      have outside := List.getElem?_eq_none_iff.1 terminal
      simp [Nat.not_lt.2 outside]
  | some s =>
      have inside := (List.getElem?_eq_some_iff.1 terminal).1
      simp [inside, eq_comm]

theorem Loop.bind_of_lt {l : Loop} {t : Timeline} (inside : l.terminal.index < t.size) :
    l.bind t = .ok ((t.steps.filter fun s => !l.leaves s).length, l.bound t) :=
  Loop.bind_eq_ok_iff.2 ⟨inside, rfl, rfl⟩

theorem StepId.mk_injective : Function.Injective StepId.mk := by
  intro a b equal
  exact StepId.mk.inj equal

namespace Timeline

/-- A flash is refused only for its start; otherwise it adds its two steps after the others. -/
theorem flash_eq_ok_iff {t after : Timeline} {target : ElementRef} {resting : Color}
    {start : Float} {property : Property} {id : StepId} :
    t.flash target resting start property = .ok (id, after) ↔
      Design.isStartTime start ∧ id = ⟨t.size + 1⟩ ∧
        after = t.pushFlash target resting start property := by
  unfold flash
  by_cases good : Design.isStartTime start
  · simp [good, rampOut, eq_comm]
  · simp [good]

/-- Handles are places, and every anchor is the handle of a step. -/
structure Anchored (t : Timeline) : Prop where
  step_id : ∀ (k : Nat) (s : Step), t.steps[k]? = some s → s.id = ⟨k⟩
  anchor_lt : ∀ s ∈ t.steps, ∀ anchor, s.begin.anchor? = some anchor → anchor.index < t.size

namespace Anchored

variable {t : Timeline}

theorem empty (highlight : Color) (ramps : Ramps) : (Timeline.empty highlight ramps).Anchored where
  step_id := by simp [Timeline.empty]
  anchor_lt := by simp [Timeline.empty]

/-- One more step that is not chained takes the next handle. -/
theorem push (anchored : t.Anchored) {s : Step} (next : s.id = ⟨t.size⟩)
    (free : s.begin.anchor? = none) :
    ({ t with steps := t.steps ++ [s] } : Timeline).Anchored where
  step_id := by
    intro k r place
    rcases getElem?_concat_eq_some_iff.1 place with earlier | ⟨here, new⟩
    · exact anchored.step_id k r earlier
    · rw [new, next, here]
      rfl
  anchor_lt := by
    intro r member anchor chained
    simp only [size, List.length_append, List.length_singleton]
    rcases List.mem_append.1 member with earlier | new
    · exact Nat.lt_succ_of_lt (anchored.anchor_lt r earlier anchor chained)
    · rw [List.mem_singleton.1 new, free] at chained
      cases chained

/-- A flash takes the next two handles. -/
theorem flash (anchored : t.Anchored) {after : Timeline} {target : ElementRef} {resting : Color}
    {start : Float} {property : Property} {id : StepId}
    (flashed : t.flash target resting start property = .ok (id, after)) : after.Anchored := by
  obtain ⟨_, _, rfl⟩ := flash_eq_ok_iff.1 flashed
  have first := anchored.push (s := t.rampIn target resting start property) rfl rfl
  have second := first.push (s := t.rampOut target resting start property)
    (by simp [rampOut, size]) rfl
  simpa [pushFlash, rampOut, size] using second

/-- A binding chains steps to its terminal, which it has found. -/
theorem bind (anchored : t.Anchored) {l : Loop} {after : Timeline} {rewritten : Nat}
    (bound : l.bind t = .ok (rewritten, after)) : after.Anchored := by
  obtain ⟨inside, _, rfl⟩ := Loop.bind_eq_ok_iff.1 bound
  constructor
  · intro k s place
    have there : (l.bound t).get? ⟨k⟩ = some s := place
    rw [Loop.bound_get?, Option.map_eq_some_iff] at there
    obtain ⟨r, earlier, rfl⟩ := there
    rw [Loop.rebind_id]
    exact anchored.step_id k r earlier
  · intro s member anchor chained
    obtain ⟨r, earlier, rfl⟩ := List.mem_map.1 member
    rw [Loop.bound_size]
    unfold Loop.rebind at chained
    split at chained
    · exact anchored.anchor_lt r earlier anchor chained
    · cases chained
      exact inside

theorem get?_id (anchored : t.Anchored) {s : Step} (member : s ∈ t.steps) :
    t.get? s.id = some s := by
  obtain ⟨k, place⟩ := List.getElem?_of_mem member
  rw [anchored.step_id k s place]
  exact place

theorem id_of_get? (anchored : t.Anchored) {id : StepId} {s : Step} (there : t.get? id = some s) :
    s.id = id :=
  anchored.step_id id.index s there

/-- A handle in range is that of a step. -/
theorem exists_step (anchored : t.Anchored) {id : StepId} (inside : id.index < t.size) :
    ∃ s ∈ t.steps, s.id = id :=
  ⟨t.steps[id.index], List.getElem_mem inside,
    anchored.step_id id.index _ (List.getElem?_eq_getElem inside)⟩

theorem ids_eq (anchored : t.Anchored) :
    t.steps.map (·.id) = (List.range t.size).map StepId.mk := by
  apply List.ext_getElem
  · simp [size]
  · intro k inside _
    have place : k < t.steps.length := by simpa using inside
    simpa using anchored.step_id k _ (List.getElem?_eq_getElem place)

theorem ids_nodup (anchored : t.Anchored) : (t.steps.map (·.id)).Nodup := by
  rw [anchored.ids_eq]
  exact List.nodup_range.map StepId.mk_injective

end Anchored

/-- What can be done to a timeline under construction. -/
inductive Act where
  | flash (target : ElementRef) (resting : Color) (start : Float) (property : Property)
  | bind (l : Loop)

/-- What an act leaves behind; one that is refused leaves the timeline as it was. -/
def after (t : Timeline) : Act → Timeline
  | .flash target resting start property =>
      match t.flash target resting start property with
      | .ok (_, grown) => grown
      | .error _ => t
  | .bind l =>
      match l.bind t with
      | .ok (_, bound) => bound
      | .error _ => t

/-- What a list of acts leaves behind. -/
def run (t : Timeline) (acts : List Act) : Timeline :=
  acts.foldl after t

/-- One act keeps handles and anchors right, whether it is refused or not. -/
theorem Anchored.after {t : Timeline} (anchored : t.Anchored) (act : Act) :
    (t.after act).Anchored := by
  cases act with
  | flash target resting start property =>
      simp only [Timeline.after]
      cases flashed : t.flash target resting start property with
      | error e => exact anchored
      | ok result =>
          obtain ⟨id, grown⟩ := result
          exact anchored.flash flashed
  | bind l =>
      simp only [Timeline.after]
      cases bound : l.bind t with
      | error e => exact anchored
      | ok result =>
          obtain ⟨rewritten, rebound⟩ := result
          exact anchored.bind bound

/-- A whole run keeps handles and anchors right. -/
theorem Anchored.run {t : Timeline} (anchored : t.Anchored) (acts : List Act) :
    (t.run acts).Anchored := by
  induction acts generalizing t with
  | nil => exact anchored
  | cons act rest ih => exact ih (anchored.after act)

end Timeline

end Emblem
