/-
Module: Emblem.Proofs.FlashSequence
Purpose: Timelines as sequences of flashes. A flash has two steps next to each other, so the places
  of steps are counted in pairs; bindings change nothing but the chains.
Main exports: Flash, Flash.rampIn, Flash.rampOut, Timeline.ofFlashes, Timeline.size_ofFlashes,
  Timeline.get?_rampIn, Timeline.get?_rampOut, Timeline.mem_ofFlashes_iff, Timeline.unchained,
  Timeline.unchained_bound
-/
import Emblem.Proofs.TimelineRun
import Mathlib.Algebra.Ring.Parity

namespace Emblem

/-- What a flash is asked for. -/
structure Flash where
  target : ElementRef
  resting : Color
  start : Float
  property : Property
deriving DecidableEq, Repr

namespace Flash

/-- The first step of the flash with a number: from the resting colour to the highlight. -/
def rampIn (f : Flash) (k : Nat) (highlight : Color) (ramps : Ramps) : Step where
  id := ⟨2 * k⟩
  target := f.target
  property := f.property
  startColor := f.resting
  endColor := highlight
  begin := .once f.start
  duration := ramps.rampIn

/-- The second step of the flash with a number: from the highlight back to the resting colour, from
when the first one ends. -/
def rampOut (f : Flash) (k : Nat) (highlight : Color) (ramps : Ramps) : Step where
  id := ⟨2 * k + 1⟩
  target := f.target
  property := f.property
  startColor := highlight
  endColor := f.resting
  begin := .once (f.start + ramps.rampIn)
  duration := ramps.rampOut

/-- The steps of flashes that are numbered from `k` on. -/
def steps (highlight : Color) (ramps : Ramps) : Nat → List Flash → List Step
  | _, [] => []
  | k, f :: rest =>
      f.rampIn k highlight ramps :: f.rampOut k highlight ramps :: steps highlight ramps (k + 1) rest

section Steps

variable {highlight : Color} {ramps : Ramps}

@[simp] theorem length_steps (k : Nat) (fs : List Flash) :
    (steps highlight ramps k fs).length = 2 * fs.length := by
  induction fs generalizing k with
  | nil => rfl
  | cons f rest ih => simp [steps, ih, Nat.mul_add]

theorem steps_concat (k : Nat) (fs : List Flash) (f : Flash) :
    steps highlight ramps k (fs ++ [f]) =
      steps highlight ramps k fs ++
        [f.rampIn (k + fs.length) highlight ramps, f.rampOut (k + fs.length) highlight ramps] := by
  induction fs generalizing k with
  | nil => rfl
  | cons g rest ih =>
      have next : k + 1 + rest.length = k + (rest.length + 1) := by omega
      simp [steps, ih, next]

theorem getElem?_steps_even (highlight : Color) (ramps : Ramps) (k i : Nat) (fs : List Flash) :
    (steps highlight ramps k fs)[2 * i]? =
      fs[i]?.map fun f => f.rampIn (k + i) highlight ramps := by
  induction fs generalizing k i with
  | nil => rfl
  | cons f rest ih =>
      cases i with
      | zero => rfl
      | succ i =>
          have next : k + 1 + i = k + (i + 1) := by omega
          simpa [steps, Nat.mul_add, next] using ih (k + 1) i

theorem getElem?_steps_odd (highlight : Color) (ramps : Ramps) (k i : Nat) (fs : List Flash) :
    (steps highlight ramps k fs)[2 * i + 1]? =
      fs[i]?.map fun f => f.rampOut (k + i) highlight ramps := by
  induction fs generalizing k i with
  | nil => rfl
  | cons f rest ih =>
      cases i with
      | zero => rfl
      | succ i =>
          have next : k + 1 + i = k + (i + 1) := by omega
          simpa [steps, Nat.mul_add, next] using ih (k + 1) i

end Steps

end Flash

namespace Timeline

/-- The timeline of flashes one after another, none of them bound. -/
def ofFlashes (highlight : Color) (ramps : Ramps) (fs : List Flash) : Timeline :=
  ⟨Flash.steps highlight ramps 0 fs, highlight, ramps⟩

section OfFlashes

variable {highlight : Color} {ramps : Ramps} {fs : List Flash}

@[simp] theorem size_ofFlashes : (ofFlashes highlight ramps fs).size = 2 * fs.length := by
  simp [ofFlashes, size]

/-- One more flash takes the next number. -/
theorem pushFlash_ofFlashes (f : Flash) :
    (ofFlashes highlight ramps fs).pushFlash f.target f.resting f.start f.property =
      ofFlashes highlight ramps (fs ++ [f]) := by
  have first : (ofFlashes highlight ramps fs).rampIn f.target f.resting f.start f.property =
      f.rampIn fs.length highlight ramps := by
    rw [Timeline.rampIn, size_ofFlashes]
    rfl
  have second : (ofFlashes highlight ramps fs).rampOut f.target f.resting f.start f.property =
      f.rampOut fs.length highlight ramps := by
    rw [Timeline.rampOut, size_ofFlashes]
    rfl
  rw [pushFlash, first, second]
  simp [ofFlashes, Flash.steps_concat]

/-- The first step of a flash stands at twice its number. -/
theorem get?_rampIn (highlight : Color) (ramps : Ramps) (fs : List Flash) (k : Nat) :
    (ofFlashes highlight ramps fs).get? ⟨2 * k⟩ =
      fs[k]?.map fun f => f.rampIn k highlight ramps := by
  have place := Flash.getElem?_steps_even highlight ramps 0 k fs
  rw [Nat.zero_add] at place
  exact place

/-- The second step of a flash comes right after the first one. -/
theorem get?_rampOut (highlight : Color) (ramps : Ramps) (fs : List Flash) (k : Nat) :
    (ofFlashes highlight ramps fs).get? ⟨2 * k + 1⟩ =
      fs[k]?.map fun f => f.rampOut k highlight ramps := by
  have place := Flash.getElem?_steps_odd highlight ramps 0 k fs
  rw [Nat.zero_add] at place
  exact place

/-- There are no other steps. -/
theorem mem_ofFlashes_iff {s : Step} :
    s ∈ (ofFlashes highlight ramps fs).steps ↔
      ∃ (k : Nat) (f : Flash), fs[k]? = some f ∧
        (s = f.rampIn k highlight ramps ∨ s = f.rampOut k highlight ramps) := by
  constructor
  · intro member
    obtain ⟨i, place⟩ := List.getElem?_of_mem member
    rcases Nat.even_or_odd' i with ⟨k, rfl | rfl⟩
    · have here := (get?_rampIn highlight ramps fs k).symm.trans place
      obtain ⟨f, found, same⟩ := Option.map_eq_some_iff.1 here
      exact ⟨k, f, found, .inl same.symm⟩
    · have here := (get?_rampOut highlight ramps fs k).symm.trans place
      obtain ⟨f, found, same⟩ := Option.map_eq_some_iff.1 here
      exact ⟨k, f, found, .inr same.symm⟩
  · rintro ⟨k, f, found, rfl | rfl⟩
    · have here := get?_rampIn highlight ramps fs k
      rw [found] at here
      exact List.mem_of_getElem? here
    · have here := get?_rampOut highlight ramps fs k
      rw [found] at here
      exact List.mem_of_getElem? here

end OfFlashes

end Timeline

/-! ### Timelines without their chains -/

/-- A step without its chain. -/
def Step.unchained (s : Step) : Step :=
  { s with begin := .once s.begin.offset }

theorem Loop.rebind_unchained (l : Loop) (s : Step) : (l.rebind s).unchained = s.unchained := by
  unfold rebind
  split <;> rfl

namespace Timeline

/-- A timeline without its chains. -/
def unchained (t : Timeline) : Timeline :=
  { t with steps := t.steps.map Step.unchained }

variable {t : Timeline}

@[simp] theorem size_unchained : t.unchained.size = t.size := by
  simp [unchained, size]

theorem get?_unchained (id : StepId) : t.unchained.get? id = (t.get? id).map Step.unchained := by
  simp [unchained, get?]

/-- A binding changes nothing but the chains. -/
theorem unchained_bound (l : Loop) : (l.bound t).unchained = t.unchained := by
  simp [unchained, Loop.bound, Loop.rebind_unchained]

/-- A flash adds the same steps whether the others are chained or not. -/
theorem unchained_pushFlash (f : Flash) :
    (t.pushFlash f.target f.resting f.start f.property).unchained =
      t.unchained.pushFlash f.target f.resting f.start f.property := by
  simp [unchained, pushFlash, rampIn, rampOut, size, Step.unchained, Begin.offset]

end Timeline

end Emblem
