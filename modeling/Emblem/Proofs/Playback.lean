/-
Module: Emblem.Proofs.Playback
Purpose: When the steps of a timeline begin and end while it is played. Steps wait for the ends of
  others, and perhaps of themselves, so a schedule is a solution of equations; the clock starts at
  zero.
Main exports: Schedule, Begin.times, completions, Timeline.Plays, Timeline.driven, cycleStarts,
  cycleEnds, ends_eq_cycleEnds
-/
import Emblem.Proofs.ExactValue
import Emblem.Timeline.Basic
import Mathlib.Algebra.Order.Archimedean.Basic
import Mathlib.Data.Set.Insert
import Mathlib.Tactic.Linarith
import Mathlib.Tactic.Ring

namespace Emblem

open Number (value)

/-- When steps begin and end, in seconds after the load. -/
@[ext] structure Schedule where
  begins : StepId → Set ℚ
  ends : StepId → Set ℚ

/-- When a step begins, given when others end: after the load, and after each end of its anchor. -/
def Begin.times (ends : StepId → Set ℚ) : Begin → Set ℚ
  | once t => {value t}
  | chained t anchor => {τ | τ = value t ∨ ∃ e ∈ ends anchor, τ = e + value t}

/-- When runs that take so long end, given when they begin; one that is begun again before its end
has none. -/
def completions (duration : ℚ) (begins : Set ℚ) : Set ℚ :=
  {τ | ∃ b ∈ begins, τ = b + duration ∧ ∀ b' ∈ begins, ¬(b < b' ∧ b' < b + duration)}

/-- A timeline can be played to a schedule. -/
structure Timeline.Plays (t : Timeline) (p : Schedule) : Prop where
  begins : ∀ id s, t.get? id = some s → p.begins id = s.begin.times p.ends
  ends : ∀ id s, t.get? id = some s → p.ends id = completions (value s.duration) (p.begins id)
  absent : ∀ id, t.get? id = none → p.begins id = ∅ ∧ p.ends id = ∅
  /-- Nothing begins before the load; a step that waits for itself could else have begun ever
  earlier. -/
  nonneg : ∀ id, ∀ b ∈ p.begins id, 0 ≤ b

/-! ### Cycles -/

/-- A time of each cycle. -/
def cycleStarts (offset period : ℚ) : Set ℚ :=
  {τ | ∃ k : ℕ, τ = k * period + offset}

/-- The ends of the cycles. -/
def cycleEnds (period : ℚ) : Set ℚ :=
  {τ | ∃ k : ℕ, 1 ≤ k ∧ τ = k * period}

/-- What begins after the load and after the end of each cycle begins once in each cycle. -/
theorem times_chained_cycleEnds {t : Float} {anchor : StepId} {period : ℚ} :
    (Begin.chained t anchor).times (fun _ => cycleEnds period) =
      cycleStarts (value t) period := by
  ext τ
  constructor
  · intro begun
    rcases begun with first | ⟨e, ⟨k, _, rfl⟩, again⟩
    · exact ⟨0, by rw [first]; simp⟩
    · exact ⟨k, again⟩
  · intro begun
    rcases begun with ⟨k, rfl⟩
    cases k with
    | zero =>
        left
        simp
    | succ k => exact .inr ⟨_, ⟨k + 1, by simp, rfl⟩, rfl⟩

/-- What begins after the load and after one end begins twice. -/
theorem times_chained_singleton {t : Float} {anchor : StepId} {e : ℚ} :
    (Begin.chained t anchor).times (fun _ => {e}) = {value t, e + value t} := by
  ext τ
  simp [Begin.times]

/-- A run that begins once ends once. -/
theorem completions_singleton (b duration : ℚ) : completions duration {b} = {b + duration} := by
  ext τ
  constructor
  · intro ended
    rcases ended with ⟨b', begun, rfl, _⟩
    rw [Set.mem_singleton_iff.1 begun]
    exact Set.mem_singleton _
  · intro ended
    refine ⟨b, Set.mem_singleton b, ended, ?_⟩
    intro b' begun between
    rw [Set.mem_singleton_iff.1 begun] at between
    exact lt_irrefl b between.1

section Restart

variable {offset duration : ℚ}

/-- No start of a cycle lies within the run before it. -/
theorem not_between_cycleStarts (offset_nonneg : 0 ≤ offset) (duration_pos : 0 < duration) {b b' : ℚ}
    (start : b ∈ cycleStarts offset (offset + duration))
    (other : b' ∈ cycleStarts offset (offset + duration)) :
    ¬(b < b' ∧ b' < b + duration) := by
  intro between
  rcases start with ⟨j, rfl⟩
  rcases other with ⟨k, rfl⟩
  have period_pos : 0 < offset + duration := add_pos_of_nonneg_of_pos offset_nonneg duration_pos
  have later : (j : ℚ) < k := lt_of_mul_lt_mul_right (by linarith [between.1]) period_pos.le
  have next : (j : ℚ) + 1 ≤ k := by exact_mod_cast later
  have product : ((j : ℚ) + 1) * (offset + duration) ≤ k * (offset + duration) :=
    mul_le_mul_of_nonneg_right next period_pos.le
  linarith [between.2]

/-- Runs that begin once in each cycle, at the end of which they end, end at the ends of cycles. -/
theorem completions_cycleStarts (offset_nonneg : 0 ≤ offset) (duration_pos : 0 < duration) :
    completions duration (cycleStarts offset (offset + duration)) =
      cycleEnds (offset + duration) := by
  ext τ
  constructor
  · intro ended
    rcases ended with ⟨_, ⟨k, rfl⟩, rfl, _⟩
    refine ⟨k + 1, by simp, ?_⟩
    push_cast
    ring
  · intro ended
    rcases ended with ⟨k, positive, rfl⟩
    have start : ((k - 1 : ℕ) : ℚ) * (offset + duration) + offset ∈
        cycleStarts offset (offset + duration) := ⟨k - 1, rfl⟩
    refine ⟨_, start, ?_, ?_⟩
    · rw [Nat.cast_sub positive]
      push_cast
      ring
    · intro b' other
      exact not_between_cycleStarts offset_nonneg duration_pos start other

/-- A step that is chained to itself begins at starts of cycles only: each of its begins but the
first one has another one period before it, and none lies before zero. -/
theorem begins_subset_cycleStarts {begins : Set ℚ} (offset_nonneg : 0 ≤ offset)
    (duration_pos : 0 < duration) (nonneg : ∀ b ∈ begins, 0 ≤ b)
    (chained : ∀ b ∈ begins,
      b = offset ∨ ∃ e ∈ completions duration begins, b = e + offset) :
    begins ⊆ cycleStarts offset (offset + duration) := by
  have before : ∀ n : ℕ, ∀ b ∈ begins, b < n * (offset + duration) →
      b ∈ cycleStarts offset (offset + duration) := by
    -- The induction is on a bound for how many periods lie before the begin.
    intro n
    induction n with
    | zero =>
        intro b begun early
        have := nonneg b begun
        simp at early
        linarith
    | succ n ih =>
        intro b begun early
        rcases chained b begun with first | ⟨_, ⟨b', begun', rfl, _⟩, again⟩
        · exact ⟨0, by rw [first]; simp⟩
        · push_cast at early
          rcases ih b' begun' (by linarith) with ⟨k, start⟩
          refine ⟨k + 1, ?_⟩
          push_cast
          linarith
  intro b begun
  have period_pos : 0 < offset + duration := add_pos_of_nonneg_of_pos offset_nonneg duration_pos
  rcases exists_nat_gt (b / (offset + duration)) with ⟨n, bound⟩
  exact before n b begun ((div_lt_iff₀ period_pos).1 bound)

/-- A step that is chained to itself ends at the ends of cycles. -/
theorem ends_eq_cycleEnds {begins ends : Set ℚ} (offset_nonneg : 0 ≤ offset)
    (duration_pos : 0 < duration) (nonneg : ∀ b ∈ begins, 0 ≤ b)
    (chained : begins = {τ | τ = offset ∨ ∃ e ∈ ends, τ = e + offset})
    (ended : ends = completions duration begins) : ends = cycleEnds (offset + duration) := by
  have only : begins ⊆ cycleStarts offset (offset + duration) := by
    apply begins_subset_cycleStarts offset_nonneg duration_pos nonneg
    intro b begun
    rw [chained, ended] at begun
    exact begun
  have all : ∀ k : ℕ, k * (offset + duration) + offset ∈ begins := by
    intro k
    induction k with
    | zero =>
        rw [chained]
        left
        simp
    | succ k ih =>
        have finished : k * (offset + duration) + offset + duration ∈ ends := by
          rw [ended]
          refine ⟨_, ih, rfl, ?_⟩
          intro b' begun
          exact not_between_cycleStarts offset_nonneg duration_pos (only ih) (only begun)
        rw [chained]
        refine .inr ⟨_, finished, ?_⟩
        push_cast
        ring
  have same : begins = cycleStarts offset (offset + duration) := by
    apply Set.Subset.antisymm only
    intro b start
    rcases start with ⟨k, rfl⟩
    exact all k
  rw [ended, same, completions_cycleStarts offset_nonneg duration_pos]

end Restart

/-! ### Timelines that wait for one step only -/

namespace Timeline

/-- The schedule of a timeline in which all that is waited for ends at these times. -/
def driven (t : Timeline) (drive : Set ℚ) : Schedule where
  begins id :=
    match t.get? id with
    | some s => s.begin.times fun _ => drive
    | none => ∅
  ends id :=
    match t.get? id with
    | some s => completions (value s.duration) (s.begin.times fun _ => drive)
    | none => ∅

/-- Every step that is chained waits for this one. -/
def WaitsFor (t : Timeline) (terminal : StepId) : Prop :=
  ∀ id s, t.get? id = some s → ∀ anchor, s.begin.anchor? = some anchor → anchor = terminal

variable {t : Timeline} {terminal : StepId} {drive : Set ℚ}

theorem driven_begins {id : StepId} {s : Step} (there : t.get? id = some s) :
    (t.driven drive).begins id = s.begin.times fun _ => drive := by
  simp only [driven, there]

theorem driven_ends {id : StepId} {s : Step} (there : t.get? id = some s) :
    (t.driven drive).ends id =
      completions (value s.duration) (s.begin.times fun _ => drive) := by
  simp only [driven, there]

/-- Only the ends of the anchor count. -/
theorem WaitsFor.times_eq (waits : t.WaitsFor terminal) {id : StepId} {s : Step}
    (there : t.get? id = some s) (ends : StepId → Set ℚ) :
    s.begin.times ends = s.begin.times fun _ => ends terminal := by
  cases shape : s.begin with
  | once start => rfl
  | chained start anchor =>
      have same : anchor = terminal := waits id s there anchor (by rw [shape]; rfl)
      rw [same]
      rfl

/-- If steps wait for one step only, the ends of that step determine the schedule. -/
theorem Plays.eq_driven (waits : t.WaitsFor terminal) {p : Schedule} (plays : t.Plays p) :
    p = t.driven (p.ends terminal) := by
  have beginsEq : ∀ id, p.begins id = (t.driven (p.ends terminal)).begins id := by
    intro id
    cases there : t.get? id with
    | none =>
        rw [(plays.absent id there).1]
        simp only [driven, there]
    | some s => rw [plays.begins id s there, waits.times_eq there, driven_begins there]
  apply Schedule.ext
  · exact funext beginsEq
  · funext id
    cases there : t.get? id with
    | none =>
        rw [(plays.absent id there).2]
        simp only [driven, there]
    | some s =>
        rw [plays.ends id s there, beginsEq, driven_begins there, driven_ends there]

/-- Times are a schedule's drive if they are the ends that they give to the anchor. -/
theorem plays_driven (waits : t.WaitsFor terminal)
    (closed : (t.driven drive).ends terminal = drive) (drive_nonneg : ∀ e ∈ drive, 0 ≤ e)
    (offset_nonneg : ∀ id s, t.get? id = some s → 0 ≤ value s.begin.offset) :
    t.Plays (t.driven drive) where
  begins := by
    intro id s there
    rw [waits.times_eq there, closed, driven_begins there]
  ends := by
    intro id s there
    rw [driven_ends there, driven_begins there]
  absent := by
    intro id there
    simp [driven, there]
  nonneg := by
    intro id b begun
    cases there : t.get? id with
    | none => simp [driven, there] at begun
    | some s =>
        rw [driven_begins there] at begun
        have later := offset_nonneg id s there
        cases shape : s.begin with
        | once start =>
            rw [shape] at begun later
            rw [Set.mem_singleton_iff.1 begun]
            exact later
        | chained start anchor =>
            rw [shape] at begun later
            rcases begun with first | ⟨e, ended, again⟩
            · rw [first]
              exact later
            · rw [again]
              exact add_nonneg (drive_nonneg e ended) later

/-- A timeline has one schedule if no other drive is possible. -/
theorem plays_iff_of_drive (waits : t.WaitsFor terminal)
    (closed : (t.driven drive).ends terminal = drive) (drive_nonneg : ∀ e ∈ drive, 0 ≤ e)
    (offset_nonneg : ∀ id s, t.get? id = some s → 0 ≤ value s.begin.offset)
    (only : ∀ p, t.Plays p → p.ends terminal = drive) (p : Schedule) :
    t.Plays p ↔ p = t.driven drive := by
  constructor
  · intro plays
    rw [← only p plays]
    exact plays.eq_driven waits
  · intro same
    rw [same]
    exact plays_driven waits closed drive_nonneg offset_nonneg

end Timeline

end Emblem
