/-
Module: Emblem.Proofs.FlashHistory
Purpose: What a timeline keeps of the flashes that were added to it. Flashes and bindings may come in
  any order, and some may be refused; without its chains, the timeline is that of the flashes alone.
Main exports: Timeline.added, Timeline.Refuses, Timeline.unchained_run, Timeline.Keeps,
  Timeline.run_keeps
-/
import Emblem.Proofs.FlashSequence

namespace Emblem

/-- A binding is refused for a terminal that is no step of the timeline. -/
theorem Loop.bind_eq_error_iff {l : Loop} {t : Timeline} {e : Error} :
    l.bind t = .error e ↔ t.get? l.terminal = none ∧ e = .foreignTerminal l.terminal := by
  unfold Loop.bind
  cases t.get? l.terminal with
  | none => simp [eq_comm]
  | some s => simp

namespace Timeline

/-- The flash that an act adds; a binding adds none, and neither does a flash that is refused. -/
def added? (t : Timeline) : Act → Option Flash
  | .flash target resting start property =>
      match t.flash target resting start property with
      | .ok _ => some ⟨target, resting, start, property⟩
      | .error _ => none
  | .bind _ => none

/-- The flashes that a list of acts adds, in order. -/
def added (t : Timeline) : List Act → List Flash
  | [] => []
  | act :: rest => (t.added? act).toList ++ (t.after act).added rest

/-- An act is refused. -/
def Refuses (t : Timeline) : Act → Error → Prop
  | .flash target resting start property, e => t.flash target resting start property = .error e
  | .bind l, e => l.bind t = .error e

/-! ### Refusals -/

section Refusals

variable {t : Timeline} {e : Error}

/-- A flash is refused for a start that is not finite or lies before the cycle. -/
theorem flash_eq_error_iff {target : ElementRef} {resting : Color} {start : Float}
    {property : Property} :
    t.flash target resting start property = .error e ↔
      (¬start.isFinite ∨ start < 0) ∧ e = .badFlashStart target start := by
  have bad : (¬start.isFinite ∨ start < 0) ↔ Design.isStartTime start = false := by
    simp [Design.isStartTime, imp_iff_not_or]
  rw [bad]
  unfold flash
  cases Design.isStartTime start with
  | true => simp
  | false =>
      constructor
      · intro refused
        cases refused
        exact ⟨rfl, rfl⟩
      · rintro ⟨_, rfl⟩
        rfl

/-- What is refused changes nothing. -/
theorem after_of_refuses {act : Act} (refused : t.Refuses act e) : t.after act = t := by
  cases act with
  | flash target resting start property =>
      have failed : t.flash target resting start property = .error e := refused
      simp only [after, failed]
  | bind l =>
      have failed : l.bind t = .error e := refused
      simp only [after, failed]

end Refusals

/-! ### The flashes behind a timeline -/

section Runs

variable {t : Timeline} {highlight : Color} {ramps : Ramps} {fs : List Flash}

/-- An act adds its flash to those behind a timeline, and nothing else. -/
theorem unchained_after (behind : t.unchained = ofFlashes highlight ramps fs) (act : Act) :
    (t.after act).unchained = ofFlashes highlight ramps (fs ++ (t.added? act).toList) := by
  cases act with
  | flash target resting start property =>
      simp only [after, added?]
      cases flashed : t.flash target resting start property with
      | error e => simpa using behind
      | ok result =>
          obtain ⟨id, grown⟩ := result
          obtain ⟨_, _, rfl⟩ := flash_eq_ok_iff.1 flashed
          let f : Flash := ⟨target, resting, start, property⟩
          calc (t.pushFlash target resting start property).unchained
              = t.unchained.pushFlash target resting start property := unchained_pushFlash f
            _ = (ofFlashes highlight ramps fs).pushFlash target resting start property := by
                rw [behind]
            _ = ofFlashes highlight ramps (fs ++ [f]) := pushFlash_ofFlashes f
  | bind l =>
      simp only [after, added?]
      cases bound : l.bind t with
      | error e => simpa using behind
      | ok result =>
          obtain ⟨rewritten, rebound⟩ := result
          obtain ⟨_, _, rfl⟩ := Loop.bind_eq_ok_iff.1 bound
          simpa [unchained_bound] using behind

/-- A run adds its flashes to those behind a timeline, in order. -/
theorem unchained_run (behind : t.unchained = ofFlashes highlight ramps fs) (acts : List Act) :
    (t.run acts).unchained = ofFlashes highlight ramps (fs ++ t.added acts) := by
  induction acts generalizing t fs with
  | nil => simpa [run, added] using behind
  | cons act rest ih =>
      have next := ih (unchained_after behind act)
      rw [List.append_assoc] at next
      exact next

/-- What acts add does not depend on those that follow. -/
theorem added_append (earlier later : List Act) :
    t.added (earlier ++ later) = t.added earlier ++ (t.run earlier).added later := by
  induction earlier generalizing t with
  | nil => rfl
  | cons act rest ih =>
      simp only [List.cons_append, added, ih, List.append_assoc]
      rfl

end Runs

/-! ### What is kept -/

/-- A timeline has two steps for each of these flashes, in order, and no others. Handles are places,
and a step is chained to a step at most. What is refused changes nothing. -/
structure Keeps (t : Timeline) (highlight : Color) (ramps : Ramps) (fs : List Flash) : Prop where
  size_eq : t.size = 2 * fs.length
  get?_eq : ∀ (k : Nat) (s : Step), t.steps[k]? = some s → s.id = ⟨k⟩ ∧ t.get? ⟨k⟩ = some s
  get?_of_le : ∀ id : StepId, t.size ≤ id.index → t.get? id = none
  /-- However often they are chained, the steps of a flash keep their element, their colours, their
  durations and their offsets. -/
  pair : ∀ (k : Nat) (f : Flash), fs[k]? = some f → ∃ first second,
    t.get? ⟨2 * k⟩ = some first ∧ first.unchained = f.rampIn k highlight ramps ∧
      t.get? ⟨2 * k + 1⟩ = some second ∧ second.unchained = f.rampOut k highlight ramps
  anchor : ∀ s ∈ t.steps, ∀ id, s.begin.anchor? = some id → ∃ r, t.get? id = some r
  flash_refused : ∀ target resting start property e,
    t.flash target resting start property = .error e ↔
      (¬start.isFinite ∨ start < 0) ∧ e = .badFlashStart target start
  bind_refused : ∀ (l : Loop) (e : Error), l.bind t = .error e ↔
    t.get? l.terminal = none ∧ e = .foreignTerminal l.terminal
  after_refused : ∀ (act : Act) (e : Error), t.Refuses act e → t.after act = t

/-- A timeline keeps the flashes behind it. -/
theorem Anchored.keeps {t : Timeline} {highlight : Color} {ramps : Ramps} {fs : List Flash}
    (anchored : t.Anchored) (behind : t.unchained = ofFlashes highlight ramps fs) :
    t.Keeps highlight ramps fs where
  size_eq := by rw [← size_unchained, behind, size_ofFlashes]
  get?_eq := fun k s place => ⟨anchored.step_id k s place, place⟩
  get?_of_le := fun _ beyond => List.getElem?_eq_none_iff.2 beyond
  pair := by
    intro k f found
    have first := get?_rampIn highlight ramps fs k
    have second := get?_rampOut highlight ramps fs k
    rw [← behind, get?_unchained, found, Option.map_some, Option.map_eq_some_iff] at first second
    obtain ⟨a, here, rampIn⟩ := first
    obtain ⟨b, there, rampOut⟩ := second
    exact ⟨a, b, here, rampIn, there, rampOut⟩
  anchor := by
    intro s member id chained
    have inside := anchored.anchor_lt s member id chained
    exact ⟨t.steps[id.index], List.getElem?_eq_getElem inside⟩
  flash_refused := fun _ _ _ _ _ => flash_eq_error_iff
  bind_refused := fun _ _ => Loop.bind_eq_error_iff
  after_refused := fun _ _ => after_of_refuses

/-- A run of flashes and bindings keeps the flashes that it has added, under the numbers that they
had when they were added, whatever follows them. -/
theorem run_keeps (highlight : Color) (ramps : Ramps) (earlier later : List Act) :
    ((empty highlight ramps).run (earlier ++ later)).Keeps highlight ramps
      ((empty highlight ramps).added earlier ++
        ((empty highlight ramps).run earlier).added later) := by
  have start : (empty highlight ramps).unchained = ofFlashes highlight ramps [] := rfl
  have behind := unchained_run start (earlier ++ later)
  rw [List.nil_append, added_append] at behind
  exact ((Anchored.empty highlight ramps).run (earlier ++ later)).keeps behind

end Timeline

end Emblem
