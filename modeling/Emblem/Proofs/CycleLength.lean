/-
Module: Emblem.Proofs.CycleLength
Purpose: How long a cycle takes, beside how long a first run takes. A first run ends with whatever step
  ends latest, and a cycle with the last flash of its script; so a cycle is no longer, and it is as long
  if no other flash starts after the last one.
Main exports: Timeline.extent_foldl_later_le_iff, Timeline.finish_le_duration,
  Timeline.duration_ofFlashes_concat, Artwork.ofDesign_cycle
-/
import Emblem.Proofs.ClockValues
import Emblem.Proofs.FloatSpans
import Emblem.Proofs.LoopPolicies

namespace Emblem

open Number (IsSpan extent extent_zero isSpan_zero value_pos value_nonneg_of_isStartTime)

/-- A flash can start only after a span. -/
theorem Design.isSpan_of_isStartTime {x : Float} (start : isStartTime x) : IsSpan x := by
  have finite : x.isFinite := by
    rw [isStartTime, Bool.and_eq_true] at start
    exact start.1
  exact .inl ⟨finite, value_nonneg_of_isStartTime start⟩

namespace Timeline

/-! ### The latest of many times -/

section Latest

variable {a b start : Float} {xs : List Float}

/-- A span is a number, so that the later one of two is found by comparing them. -/
theorem later_eq (right : IsSpan b) : later a b = if b < a then a else b := by
  rw [later, right.isNaN_eq_false, Bool.or_false]
  exact if_congr decide_eq_true_iff rfl rfl

theorem extent_later (left : IsSpan a) (right : IsSpan b) :
    IsSpan (later a b) ∧ extent (later a b) = max (extent a) (extent b) := by
  rw [later_eq right]
  split
  case isTrue before =>
      have less := (right.lt_iff left).1 before
      exact ⟨left, (max_eq_left less.le).symm⟩
  case isFalse notBefore =>
      have notLess := mt (right.lt_iff left).2 notBefore
      exact ⟨right, (max_eq_right (not_lt.1 notLess)).symm⟩

/-- A time that is not before another one is the later of the two. -/
theorem later_of_le (left : IsSpan a) (right : IsSpan b) (le : extent a ≤ extent b) : later a b = b := by
  have notBefore : ¬b < a := by
    rw [right.lt_iff left]
    exact not_lt.2 le
  rw [later_eq right, if_neg notBefore]

theorem isSpan_foldl_later (first : IsSpan start) (spans : ∀ x ∈ xs, IsSpan x) :
    IsSpan (xs.foldl later start) := by
  induction xs generalizing start with
  | nil => exact first
  | cons x xs ih =>
      obtain ⟨here, others⟩ := List.forall_mem_cons.1 spans
      exact ih (extent_later first here).1 others

/-- The latest of times is within a bound just if all of them are. -/
theorem extent_foldl_later_le_iff (first : IsSpan start) (spans : ∀ x ∈ xs, IsSpan x)
    {bound : WithTop ℚ} :
    extent (xs.foldl later start) ≤ bound ↔ extent start ≤ bound ∧ ∀ x ∈ xs, extent x ≤ bound := by
  induction xs generalizing start with
  | nil => simp
  | cons x xs ih =>
      obtain ⟨here, others⟩ := List.forall_mem_cons.1 spans
      obtain ⟨span, greater⟩ := extent_later first here
      rw [List.foldl_cons, ih span others, greater, max_le_iff, List.forall_mem_cons, and_assoc]

end Latest

/-! ### First runs -/

section Runs

variable {t : Timeline}

theorem isSpan_duration (spans : ∀ s ∈ t.steps, IsSpan s.finish) : IsSpan t.duration :=
  isSpan_foldl_later isSpan_zero (List.forall_mem_map.2 spans)

/-- A first run ends within a bound just if all its steps do. -/
theorem extent_duration_le_iff (spans : ∀ s ∈ t.steps, IsSpan s.finish) {bound : WithTop ℚ} :
    extent t.duration ≤ bound ↔ 0 ≤ bound ∧ ∀ s ∈ t.steps, extent s.finish ≤ bound := by
  rw [duration, extent_foldl_later_le_iff isSpan_zero (List.forall_mem_map.2 spans), List.forall_mem_map,
    extent_zero]

/-- No step ends after the first run. -/
theorem finish_le_duration (spans : ∀ s ∈ t.steps, IsSpan s.finish) {s : Step} (member : s ∈ t.steps) :
    s.finish ≤ t.duration := by
  rw [(spans s member).le_iff (isSpan_duration spans)]
  exact ((extent_duration_le_iff spans).1 le_rfl).2 s member

end Runs

section Flashes

variable {highlight : Color} {ramps : Ramps} {fs : List Flash} {f g : Flash} {k n : Nat}
variable (rampIn : Design.IsMeasure ramps.rampIn) (rampOut : Design.IsMeasure ramps.rampOut)

include rampIn rampOut

theorem isSpan_finish (start : IsSpan f.start) :
    IsSpan (f.rampIn k highlight ramps).finish ∧ IsSpan (f.rampOut k highlight ramps).finish := by
  have first : IsSpan (f.start + ramps.rampIn) := start.add (value_pos rampIn.1 rampIn.2)
  exact ⟨first, first.add (value_pos rampOut.1 rampOut.2)⟩

theorem isSpan_of_mem_ofFlashes (starts : ∀ f ∈ fs, IsSpan f.start) :
    ∀ s ∈ (ofFlashes highlight ramps fs).steps, IsSpan s.finish := by
  intro s member
  obtain ⟨k, f, place, rfl | rfl⟩ := mem_ofFlashes_iff.1 member
  · exact (isSpan_finish rampIn rampOut (starts f (List.mem_of_getElem? place))).1
  · exact (isSpan_finish rampIn rampOut (starts f (List.mem_of_getElem? place))).2

/-- Both steps of a flash end before those of one that starts no sooner. -/
theorem extent_finish_le (start : IsSpan f.start) (start' : IsSpan g.start)
    (le : extent f.start ≤ extent g.start) :
    extent (f.rampIn k highlight ramps).finish ≤ extent (g.rampOut n highlight ramps).finish ∧
      extent (f.rampOut k highlight ramps).finish ≤ extent (g.rampOut n highlight ramps).finish := by
  have positive := value_pos rampIn.1 rampIn.2
  have positive' := value_pos rampOut.1 rampOut.2
  have turn : extent (f.start + ramps.rampIn) ≤ extent (g.start + ramps.rampIn) :=
    start.extent_add_mono positive start' le
  constructor
  · exact turn.trans ((start'.add positive).extent_le_add positive')
  · exact (start.add positive).extent_add_mono positive' (start'.add positive) turn

/-- A first run ends with its last flash if no other one starts after that. -/
theorem duration_ofFlashes_concat (starts : ∀ f ∈ fs, IsSpan f.start) (start : IsSpan g.start)
    (latest : ∀ f ∈ fs, extent f.start ≤ extent g.start) :
    (ofFlashes highlight ramps (fs ++ [g])).duration = (g.rampOut fs.length highlight ramps).finish := by
  have spans : ∀ s ∈ (ofFlashes highlight ramps fs).steps, IsSpan s.finish :=
    isSpan_of_mem_ofFlashes rampIn rampOut starts
  have last : IsSpan (g.rampIn fs.length highlight ramps).finish ∧
      IsSpan (g.rampOut fs.length highlight ramps).finish := isSpan_finish rampIn rampOut start
  have split : (ofFlashes highlight ramps (fs ++ [g])).duration =
      later (later (ofFlashes highlight ramps fs).duration (g.rampIn fs.length highlight ramps).finish)
        (g.rampOut fs.length highlight ramps).finish := by
    simp [duration, ofFlashes, Flash.steps_concat]
  obtain ⟨sooner, greater⟩ := extent_later (isSpan_duration spans) last.1
  rw [split]
  apply later_of_le sooner last.2
  rw [greater, max_le_iff, extent_duration_le_iff spans]
  refine ⟨⟨last.2.extent_nonneg, ?_⟩, (extent_finish_le rampIn rampOut start start le_rfl).1⟩
  intro s member
  obtain ⟨k, f, place, same⟩ := mem_ofFlashes_iff.1 member
  have inside := List.mem_of_getElem? place
  rcases same with rfl | rfl
  · exact (extent_finish_le rampIn rampOut (starts f inside) start (latest f inside)).1
  · exact (extent_finish_le rampIn rampOut (starts f inside) start (latest f inside)).2

end Flashes

end Timeline

/-- The flashes of cues start when the cues do. -/
theorem Scene.starts_eq {s : Scene} {cues : List Cue} {fs : List Flash}
    (prompted : List.Forall₂ s.Prompts cues fs) : fs.map Flash.start = cues.map Cue.start := by
  induction prompted with
  | nil => rfl
  | cons prompts _ ih => rw [List.map_cons, List.map_cons, prompts.start_eq, ih]

namespace Artwork

variable {d : Design} {a : Artwork}

/-- A design with an artwork has a last flash, which ends a cycle. -/
theorem exists_lastFlash (made : ofDesign d = .ok a) :
    ∃ before last fs g, d.script = before ++ [last] ∧
      fs.map Flash.start = before.map Cue.start ∧ g.start = last.start ∧
      a.timeline.duration = (Timeline.ofFlashes d.palette.highlight d.flash (fs ++ [g])).duration ∧
      a.period = .ok (g.rampOut fs.length d.palette.highlight d.flash).finish := by
  obtain ⟨scripted, drawing, stages⟩ := exists_stages made
  have sound := Design.validate_eq_ok_iff.1 stages.passed
  obtain ⟨_, flashes, prompted, timeline⟩ := stages.indexed.exists_flashes stages.script
  rcases List.eq_nil_or_concat' d.script with none | ⟨before, last, split⟩
  · exact absurd none sound.script
  have starts := Scene.starts_eq prompted
  rw [split, List.map_append] at starts
  obtain ⟨fs, gs, rfl, others, final⟩ := List.map_eq_append_iff.1 starts
  obtain ⟨g, rfl, here⟩ := List.map_eq_singleton_iff.1 final
  have terminal : scripted.terminal = ⟨2 * fs.length + 1⟩ := by
    have cues : d.script.length = fs.length + 1 := by
      rw [prompted.length_eq, List.length_append, List.length_singleton]
    rw [(stages.indexed.follows stages.script).terminal_eq, cues]
    rfl
  have there : scripted.timeline.get? scripted.terminal =
      some (g.rampOut fs.length d.palette.highlight d.flash) := by
    rw [timeline, terminal, Timeline.get?_rampOut]
    simp
  refine ⟨before, last, fs, g, split, others, here, ?_, ?_⟩
  · rw [stages.timeline, Loop.bound_duration, timeline]
  · rw [period, stages.timeline, stages.loop]
    exact Loop.period_bound there

/-- The cycle of a design takes no longer than the first run of its timeline, and just as long if no
other cue starts after the last one. -/
theorem ofDesign_cycle (made : ofDesign d = .ok a) :
    ∃ before last period, d.script = before ++ [last] ∧ a.period = .ok period ∧
      period ≤ a.timeline.duration ∧
      ((∀ cue ∈ before, cue.start ≤ last.start) → period = a.timeline.duration) := by
  obtain ⟨_, sound, _⟩ := ofDesign_eq_ok made
  obtain ⟨before, last, fs, g, split, starts, start, duration, ends⟩ := exists_lastFlash made
  have cues : ∀ cue ∈ before ++ [last], IsSpan cue.start := by
    rw [← split]
    exact fun cue member => Design.isSpan_of_isStartTime (sound.starts cue member)
  have final : IsSpan g.start := by
    rw [start]
    exact cues last List.mem_concat_self
  -- Every other flash starts when its cue does.
  have others : ∀ f ∈ fs, ∃ cue ∈ before, cue.start = f.start := by
    intro f member
    rw [← List.mem_map, ← starts]
    exact List.mem_map_of_mem member
  have spans : ∀ f ∈ fs, IsSpan f.start := by
    intro f member
    obtain ⟨cue, inside, same⟩ := others f member
    rw [← same]
    exact cues cue (List.mem_append_left _ inside)
  refine ⟨before, last, _, split, ends, ?_, ?_⟩
  · rw [duration]
    apply Timeline.finish_le_duration
    · apply Timeline.isSpan_of_mem_ofFlashes sound.rampIn sound.rampOut
      rw [List.forall_mem_append, List.forall_mem_singleton]
      exact ⟨spans, final⟩
    · exact Timeline.mem_ofFlashes_iff.2 ⟨fs.length, g, by simp, .inr rfl⟩
  · intro latest
    rw [duration, Timeline.duration_ofFlashes_concat sound.rampIn sound.rampOut spans final]
    intro f member
    obtain ⟨cue, inside, same⟩ := others f member
    have le := latest cue inside
    rw [same, ← start] at le
    exact ((spans f member).le_iff final).1 le

/-- The last cue of the standard design is also the latest. -/
theorem ofDesign_cycle_standard : ∃ a, ofDesign .standard = .ok a ∧
    ∃ before last period, Design.standard.script = before ++ [last] ∧ a.period = .ok period ∧
      period ≤ a.timeline.duration ∧ (∀ cue ∈ before, cue.start ≤ last.start) ∧
      period = a.timeline.duration := by
  have passed : Design.standard.validate = .ok () := rfl
  have drawn : ∀ cue ∈ Design.standard.script, cue.target.Drawn := by decide
  obtain ⟨a, made⟩ := exists_ofDesign_of_drawn passed drawn
  obtain ⟨before, last, period, split, ends, le, same⟩ := ofDesign_cycle made
  have latest : ∀ cue ∈ before, cue.start ≤ last.start := by
    have first : before = Design.standard.script.dropLast := by
      rw [split, List.dropLast_concat]
    have final : last = ⟨.node (.fan .right), 6.0⟩ := by
      have there := congrArg List.getLast? split
      rw [List.getLast?_concat] at there
      exact (Option.some.inj there).symm
    rw [first, final]
    decide
  exact ⟨a, made, before, last, period, split, ends, le, latest, same latest⟩

end Artwork

end Emblem
