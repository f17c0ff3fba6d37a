/-
Module: Emblem.Proofs.ScriptLoop
Purpose: What binding the timeline of a script to its last step comes to when it is played. With
  the terminal in the loop everything is repeated for ever, and without it once.
Main exports: Timeline.Linear, Timeline.Linear.ofScript, Timeline.RepeatsForever,
  Timeline.RepeatsOnce, Timeline.ofScript_repeats
-/
import Emblem.Proofs.DesignCheck
import Emblem.Proofs.Playback
import Emblem.Proofs.ScriptRun

namespace Emblem

open Number (value)

/-- When a step ends for the first time, without rounding. -/
def Step.exactFinish (s : Step) : ℚ :=
  value s.begin.offset + value s.duration

namespace Timeline

/-- Every step begins once, at a time that is not negative, and takes some time. -/
structure Linear (t : Timeline) : Prop where
  once : ∀ s ∈ t.steps, s.begin = .once s.begin.offset
  offset_nonneg : ∀ s ∈ t.steps, 0 ≤ value s.begin.offset
  duration_pos : ∀ s ∈ t.steps, 0 < value s.duration
  rampIn_pos : 0 < value t.ramps.rampIn
  rampOut_pos : 0 < value t.ramps.rampOut

namespace Linear

variable {t : Timeline}

theorem empty {highlight : Color} {ramps : Ramps} (rampIn : Design.IsMeasure ramps.rampIn)
    (rampOut : Design.IsMeasure ramps.rampOut) : (Timeline.empty highlight ramps).Linear where
  once := by simp [Timeline.empty]
  offset_nonneg := by simp [Timeline.empty]
  duration_pos := by simp [Timeline.empty]
  rampIn_pos := Number.value_pos rampIn.1 rampIn.2
  rampOut_pos := Number.value_pos rampOut.1 rampOut.2

theorem pushFlash (linear : t.Linear) {target : ElementRef} {resting : Color} {start : Float}
    {property : Property} (starts : Design.isStartTime start) :
    (t.pushFlash target resting start property).Linear where
  once := by
    intro s member
    simp [Timeline.pushFlash] at member
    rcases member with earlier | rfl | rfl
    · exact linear.once s earlier
    · rfl
    · rfl
  offset_nonneg := by
    have start_nonneg := Number.value_nonneg_of_isStartTime starts
    have finite : start.isFinite := by
      simp [Design.isStartTime] at starts
      exact starts.1
    intro s member
    simp [Timeline.pushFlash] at member
    rcases member with earlier | rfl | rfl
    · exact linear.offset_nonneg s earlier
    · exact start_nonneg
    · exact Number.value_add_nonneg finite start_nonneg linear.rampIn_pos
  duration_pos := by
    intro s member
    simp [Timeline.pushFlash] at member
    rcases member with earlier | rfl | rfl
    · exact linear.duration_pos s earlier
    · exact linear.rampIn_pos
    · exact linear.rampOut_pos
  rampIn_pos := linear.rampIn_pos
  rampOut_pos := linear.rampOut_pos

theorem exactFinish_pos (linear : t.Linear) {s : Step} (member : s ∈ t.steps) :
    0 < s.exactFinish :=
  add_pos_of_nonneg_of_pos (linear.offset_nonneg s member) (linear.duration_pos s member)

theorem addCue (linear : t.Linear) {s : Scene} {cue : Cue} {id : StepId} {after : Timeline}
    (added : Timeline.addCue s t cue = .ok (id, after)) : after.Linear := by
  obtain ⟨target, resting, _, _, flashed⟩ := addCue_eq_ok_iff.1 added
  obtain ⟨starts, _, rfl⟩ := flash_eq_ok_iff.1 flashed
  exact linear.pushFlash starts

end Linear

theorem Anchored.addCue {t : Timeline} (anchored : t.Anchored) {s : Scene} {cue : Cue}
    {id : StepId} {after : Timeline} (added : Timeline.addCue s t cue = .ok (id, after)) :
    after.Anchored := by
  obtain ⟨target, resting, _, _, flashed⟩ := addCue_eq_ok_iff.1 added
  exact anchored.flash flashed

/-- The timeline of a script is linear, and its handles are places. -/
theorem Linear.ofScript {s : Scene} {cues : List Cue} {highlight : Color} {ramps : Ramps}
    {scripted : Scripted} (rampIn : Design.IsMeasure ramps.rampIn)
    (rampOut : Design.IsMeasure ramps.rampOut)
    (done : Timeline.ofScript s cues highlight ramps = .ok scripted) :
    scripted.timeline.Anchored ∧ scripted.timeline.Linear := by
  have added := ofScript_eq_ok_iff.1 done
  have start : (Timeline.empty highlight ramps).Anchored ∧
      (Timeline.empty highlight ramps).Linear :=
    ⟨.empty highlight ramps, .empty rampIn rampOut⟩
  have keeps : ∀ cue ∈ cues, ∀ t id after, t.Anchored ∧ t.Linear →
      Timeline.addCue s t cue = .ok (id, after) → after.Anchored ∧ after.Linear := by
    intro cue _ t id after good here
    exact ⟨good.1.addCue here, good.2.addCue here⟩
  exact addCues_preserves keeps start added

end Timeline

namespace Loop

/-! ### Steps under a binding -/

theorem rebind_of_includes (terminal : StepId) (s : Step) :
    (Loop.rebind ⟨terminal, .includeTerminal⟩ s).begin = .chained s.begin.offset terminal := by
  simp [rebind, leaves]

theorem rebind_of_ne {terminal : StepId} {s : Step} (policy : LoopPolicy)
    (other : s.id ≠ terminal) :
    (Loop.rebind ⟨terminal, policy⟩ s).begin = .chained s.begin.offset terminal := by
  simp [rebind, leaves, other]

theorem rebind_terminal (s : Step) : Loop.rebind ⟨s.id, .excludeTerminal⟩ s = s := by
  simp [rebind, leaves]

theorem bound_of_get? {l : Loop} {t : Timeline} {id : StepId} {s : Step}
    (there : t.get? id = some s) : (l.bound t).get? id = some (l.rebind s) := by
  rw [bound_get?, there]
  rfl

variable {t : Timeline} {terminal : StepId}

/-- A binding keeps offsets, and so no step begins before the load. -/
theorem bound_offset_nonneg (linear : t.Linear) (l : Loop) (id : StepId) (s : Step)
    (there : (l.bound t).get? id = some s) : 0 ≤ value s.begin.offset := by
  rw [bound_get?, Option.map_eq_some_iff] at there
  rcases there with ⟨r, earlier, rfl⟩
  rw [rebind_offset]
  exact linear.offset_nonneg r (List.mem_of_getElem? earlier)

variable {last : Step}

theorem included_waitsFor (t : Timeline) (terminal : StepId) :
    ((Loop.mk terminal .includeTerminal).bound t).WaitsFor terminal := by
  intro id s found anchor chained
  rw [bound_get?, Option.map_eq_some_iff] at found
  rcases found with ⟨r, _, rfl⟩
  rw [rebind_of_includes] at chained
  exact (Option.some.inj chained).symm

/-- In a loop with its terminal, cycles that follow each other for ever keep themselves going. -/
theorem included_ends (linear : t.Linear) (there : t.get? terminal = some last) :
    (((Loop.mk terminal .includeTerminal).bound t).driven
      (cycleEnds last.exactFinish)).ends terminal = cycleEnds last.exactFinish := by
  have member := List.mem_of_getElem? there
  rw [Timeline.driven_ends (bound_of_get? there), rebind_duration, rebind_of_includes,
    times_chained_cycleEnds]
  exact completions_cycleStarts (linear.offset_nonneg last member)
    (linear.duration_pos last member)

/-- A loop with its terminal has one schedule, in which the terminal ends with every cycle. -/
theorem plays_included_iff (linear : t.Linear) (there : t.get? terminal = some last)
    (p : Schedule) :
    ((Loop.mk terminal .includeTerminal).bound t).Plays p ↔
      p = ((Loop.mk terminal .includeTerminal).bound t).driven (cycleEnds last.exactFinish) := by
  have member := List.mem_of_getElem? there
  have bound := bound_of_get? (l := ⟨terminal, .includeTerminal⟩) there
  refine Timeline.plays_iff_of_drive (included_waitsFor t terminal) (included_ends linear there)
    ?_ (bound_offset_nonneg linear _) ?_ p
  · intro e ended
    rcases ended with ⟨k, _, rfl⟩
    exact mul_nonneg k.cast_nonneg (linear.exactFinish_pos member).le
  · intro q plays
    have begins := plays.begins terminal _ bound
    have ends := plays.ends terminal _ bound
    rw [rebind_of_includes] at begins
    rw [rebind_duration] at ends
    exact ends_eq_cycleEnds (linear.offset_nonneg last member) (linear.duration_pos last member)
      (plays.nonneg terminal) begins ends

theorem excluded_waitsFor (linear : t.Linear) (terminal : StepId) :
    ((Loop.mk terminal .excludeTerminal).bound t).WaitsFor terminal := by
  intro id s found anchor chained
  rw [bound_get?, Option.map_eq_some_iff] at found
  rcases found with ⟨r, earlier, rfl⟩
  by_cases same : r.id = terminal
  · rw [← same, rebind_terminal, linear.once r (List.mem_of_getElem? earlier)] at chained
    cases chained
  · rw [rebind_of_ne .excludeTerminal same] at chained
    exact (Option.some.inj chained).symm

theorem excluded_get? (anchored : t.Anchored) (there : t.get? terminal = some last) :
    ((Loop.mk terminal .excludeTerminal).bound t).get? terminal = some last := by
  rw [bound_of_get? there, ← anchored.id_of_get? there, rebind_terminal]

theorem excluded_begins_terminal (anchored : t.Anchored) (linear : t.Linear)
    (there : t.get? terminal = some last) (drive : Set ℚ) :
    (((Loop.mk terminal .excludeTerminal).bound t).driven drive).begins terminal =
      {value last.begin.offset} := by
  rw [Timeline.driven_begins (excluded_get? anchored there),
    linear.once last (List.mem_of_getElem? there)]
  rfl

/-- A loop without its terminal has one schedule, in which the terminal ends once. -/
theorem plays_excluded_iff (anchored : t.Anchored) (linear : t.Linear)
    (there : t.get? terminal = some last) (p : Schedule) :
    ((Loop.mk terminal .excludeTerminal).bound t).Plays p ↔
      p = ((Loop.mk terminal .excludeTerminal).bound t).driven {last.exactFinish} := by
  have member := List.mem_of_getElem? there
  have bound := excluded_get? anchored there
  have once : ∀ ends, last.begin.times ends = {value last.begin.offset} := by
    intro ends
    rw [linear.once last member]
    rfl
  refine Timeline.plays_iff_of_drive (excluded_waitsFor linear terminal) ?_ ?_
    (bound_offset_nonneg linear _) ?_ p
  · rw [Timeline.driven_ends bound, once, completions_singleton]
    rfl
  · intro e ended
    rw [Set.mem_singleton_iff.1 ended]
    exact (linear.exactFinish_pos member).le
  · intro q plays
    rw [plays.ends terminal _ bound, plays.begins terminal _ bound, once, completions_singleton]
    rfl

theorem included_begins (anchored : t.Anchored) {step : Step} (member : step ∈ t.steps)
    (period : ℚ) :
    (((Loop.mk terminal .includeTerminal).bound t).driven (cycleEnds period)).begins step.id =
      cycleStarts (value step.begin.offset) period := by
  rw [Timeline.driven_begins (bound_of_get? (anchored.get?_id member)), rebind_of_includes,
    times_chained_cycleEnds]

theorem excluded_begins (anchored : t.Anchored) {step : Step} (member : step ∈ t.steps)
    (other : step.id ≠ terminal) (period : ℚ) :
    (((Loop.mk terminal .excludeTerminal).bound t).driven {period}).begins step.id =
      {value step.begin.offset, period + value step.begin.offset} := by
  rw [Timeline.driven_begins (bound_of_get? (anchored.get?_id member)),
    rebind_of_ne .excludeTerminal other, times_chained_singleton]

end Loop

namespace Timeline

/-- Bound with its terminal, a timeline has one schedule. Every step begins in each of infinitely
many cycles, at its offset, and the terminal ends with each cycle. -/
def RepeatsForever (t : Timeline) (terminal : StepId) (period : ℚ) : Prop :=
  ∃ rewritten bound p, Loop.bind ⟨terminal, .includeTerminal⟩ t = .ok (rewritten, bound) ∧
    (∀ q, bound.Plays q ↔ q = p) ∧
    (∀ s ∈ t.steps, p.begins s.id = cycleStarts (value s.begin.offset) period) ∧
    p.ends terminal = cycleEnds period

/-- Bound without its terminal, a timeline has one schedule. The terminal begins at its offset
only, and every other step also once more in a second cycle. -/
def RepeatsOnce (t : Timeline) (terminal : StepId) (period : ℚ) : Prop :=
  ∃ rewritten bound p, Loop.bind ⟨terminal, .excludeTerminal⟩ t = .ok (rewritten, bound) ∧
    (∀ q, bound.Plays q ↔ q = p) ∧
    (∀ s ∈ t.steps, s.id = terminal → p.begins s.id = {value s.begin.offset}) ∧
    ∀ s ∈ t.steps, s.id ≠ terminal →
      p.begins s.id = {value s.begin.offset, period + value s.begin.offset}

/-- The period of a script is the time at which its last step ends, and the policy decides between
repeating it for ever and repeating it once. Offsets are read exactly; those of a script are finite
unless a sum overflows. -/
theorem ofScript_repeats {s : Scene} {cues : List Cue} {highlight : Color} {ramps : Ramps}
    {scripted : Scripted} (rampIn : Design.IsMeasure ramps.rampIn)
    (rampOut : Design.IsMeasure ramps.rampOut)
    (done : Timeline.ofScript s cues highlight ramps = .ok scripted) :
    ∃ last, scripted.timeline.get? scripted.terminal = some last ∧ 0 < last.exactFinish ∧
      scripted.timeline.RepeatsForever scripted.terminal last.exactFinish ∧
      scripted.timeline.RepeatsOnce scripted.terminal last.exactFinish := by
  have good := Linear.ofScript rampIn rampOut done
  rcases good with ⟨anchored, linear⟩
  have inside := terminal_lt done
  obtain ⟨last, member, same⟩ := anchored.exists_step inside
  have there := anchored.get?_id member
  rw [same] at there
  refine ⟨last, there, linear.exactFinish_pos member, ?_, ?_⟩
  · refine ⟨_, _, _, Loop.bind_of_lt inside, Loop.plays_included_iff linear there, ?_, ?_⟩
    · intro step listed
      exact Loop.included_begins anchored listed last.exactFinish
    · exact Loop.included_ends linear there
  · refine ⟨_, _, _, Loop.bind_of_lt inside, Loop.plays_excluded_iff anchored linear there, ?_, ?_⟩
    · intro step listed terminal
      have found := anchored.get?_id listed
      rw [terminal] at found
      rw [terminal]
      exact Loop.excluded_begins_terminal anchored linear found _
    · intro step listed other
      exact Loop.excluded_begins anchored listed other last.exactFinish

/-- One node that flashes twice. -/
theorem ofScript_repeats_pair :
    ∃ scripted,
      Timeline.ofScript
        ((Scene.empty ⟨10, 10⟩).run [.add (.node (.ring 0) ⟨1, 2⟩ 1 ⟨0, 0, 0⟩)])
        [⟨.node (.ring 0), 1⟩, ⟨.node (.ring 0), 2.5⟩] ⟨255, 255, 255⟩ ⟨0.5, 0.25⟩ =
          .ok scripted ∧
      ∃ last, scripted.timeline.get? scripted.terminal = some last ∧ 0 < last.exactFinish ∧
        scripted.timeline.RepeatsForever scripted.terminal last.exactFinish ∧
        scripted.timeline.RepeatsOnce scripted.terminal last.exactFinish := by
  have rampIn : Design.IsMeasure (Ramps.mk 0.5 0.25).rampIn := ⟨by decide, by decide⟩
  have rampOut : Design.IsMeasure (Ramps.mk 0.5 0.25).rampOut := ⟨by decide, by decide⟩
  refine ⟨?scripted, ?done, ofScript_repeats rampIn rampOut ?done⟩
  case done => rfl

end Timeline

end Emblem
