/-
Module: Emblem.Proofs.Seams
Purpose: Whether the second ramp of a flash is printed to begin when the first one ends. Begin times are
  printed with two places and durations with all of theirs, so the two can be a hundredth of a second
  apart. They meet only if the duration has no more than two places, and then they do unless the flash
  starts half way between two hundredths.
Main exports: AnimateSpec.firstBegin?, AnimateSpec.duration?, Seam, Design.Seams, Artwork.ofDesign_seams,
  Artwork.ofDesign_shortRamp
-/
import Emblem.Proofs.AttributeValues
import Emblem.Proofs.ClockValues
import Emblem.Proofs.FloatOrder
import Emblem.Proofs.PrintedNumbers

namespace Emblem

/-! ### Printed times -/

/-- The number before the unit, which is the first `s`. -/
def seconds? (text : List Char) : Option ℚ :=
  Number.exactly? (text.takeWhile (· != 's'))

/-- The first of the begin times of an animation, in seconds. -/
def AnimateSpec.firstBegin? (spec : AnimateSpec) : Option ℚ :=
  match spec.begin.toList with
  | '+' :: rest => seconds? rest
  | _ => none

/-- How long an animation takes, in seconds. -/
def AnimateSpec.duration? (spec : AnimateSpec) : Option ℚ :=
  seconds? spec.duration.toList

theorem seconds?_append {number : List Char} (noUnit : 's' ∉ number) (rest : List Char) :
    seconds? (number ++ 's' :: rest) = Number.exactly? number := by
  rw [seconds?, List.takeWhile_append_of_pos]
  · simp
  · intro c member
    simpa using ne_of_mem_of_not_mem member noUnit

theorem AnimateSpec.BeginsAt.firstBegin?_eq {spec : AnimateSpec} {t : Float} (begins : spec.BeginsAt t) :
    spec.firstBegin? = Number.exactly? (Number.places 2 t).toList := by
  obtain ⟨b, rfl, written⟩ := begins
  obtain ⟨rest, text⟩ := b.exists_text
  have noUnit : 's' ∉ (Number.places 2 b.offset).toList := by
    intro member
    rcases Number.mem_places member with digit | letter
    · cases digit
    · exact absurd letter (by decide)
  rw [AnimateSpec.firstBegin?, written, text]
  exact seconds?_append noUnit rest

/-- The printed offset is the exact one, rounded to a hundredth. -/
theorem AnimateSpec.BeginsAt.exists_hundredths {spec : AnimateSpec} {t : Float} (begins : spec.BeginsAt t)
    (finite : t.isFinite) : ∃ n : ℤ, spec.firstBegin? = some ((n : ℚ) / 100) ∧
      |(n : ℚ) - Number.value t * 100| ≤ 1 / 2 := by
  have hundred : (10 : ℚ) ^ 2 = 100 := by norm_num
  have printed := Number.exactly?_places (k := 2) (by decide) finite
  rwa [hundred, ← begins.firstBegin?_eq] at printed

/-- The printed duration is rounded to the exact one, which is a float. -/
theorem Step.seconds?_durationText {s : Step} (measure : Design.IsMeasure s.duration) :
    ∃ q, seconds? s.durationText.toList = some q ∧ Number.Rounds q (Number.value s.duration) := by
  have positive := Number.value_pos measure.1 measure.2
  unfold durationText
  cases whole : (Number.binary s.duration).isWhole with
  | true =>
      have noUnit : 's' ∉ (Number.places 1 s.duration).toList := by
        intro member
        rcases Number.mem_places member with digit | letter
        · cases digit
        · exact absurd letter (by decide)
      refine ⟨_, ?_, Number.rounds_value measure.1⟩
      rw [if_pos rfl, String.toList_append]
      exact (seconds?_append noUnit []).trans (Number.exactly?_places_whole (by decide) measure.1 whole)
  | false =>
      have noUnit : 's' ∉ (Number.plain s.duration).toList := by
        intro member
        exact absurd (Number.mem_plain measure.1 member) (by decide)
      obtain ⟨q, read, rounds⟩ := Number.exactly?_plain positive whole
      refine ⟨q, ?_, rounds⟩
      rw [if_neg (by decide), String.toList_append]
      exact (seconds?_append noUnit []).trans read

/-! ### Seams -/

/-- How the printed times of a flash fit together: when its first ramp begins, how long that takes, and
when the second ramp begins. -/
structure Seam (start first duration second : ℚ) : Prop where
  near : |second - (first + duration)| ≤ 1 / 100 + 1 / 10 ^ 9
  places : second = first + duration → ∃ n : ℤ, duration * 100 = n
  meets : (∃ n : ℤ, duration * 100 = n) → (∀ n : ℤ, 1 / 10 ^ 9 < |start - (2 * n + 1) / 200|) →
    second = first + duration

/-- Two hundredths are each rounded, and the sum and the duration are each a little off. -/
theorem seam_of_near {start ramp sum duration : ℚ} {a b : ℤ} (first : |(a : ℚ) - start * 100| ≤ 1 / 2)
    (second : |(b : ℚ) - sum * 100| ≤ 1 / 2) (added : |start + ramp - sum| ≤ 1 / 2 ^ 33)
    (printed : |duration - ramp| ≤ 1 / 2 ^ 34) : Seam start (a / 100) duration (b / 100) := by
  rw [abs_le] at first second added printed
  constructor
  · rw [abs_le]
    norm_num at added printed ⊢
    constructor <;> linarith
  · intro meets
    refine ⟨b - a, ?_⟩
    push_cast
    linarith
  · rintro ⟨n, whole⟩ apart
    -- The rest of the start is not near a half, so together with the errors it is less than one.
    have above := apart a
    have below := apart (a - 1)
    have inner : |((b - (a + n) : ℤ) : ℚ)| < 1 := by
      rw [abs_lt]
      push_cast at below ⊢
      rw [lt_abs] at above below
      norm_num at added printed above below ⊢
      constructor
      · rcases above with above | above <;> rcases below with below | below <;> linarith
      · rcases above with above | above <;> rcases below with below | below <;> linarith
    have same : b = a + n := by
      have none : |b - (a + n)| < 1 := by exact_mod_cast inner
      exact sub_eq_zero.1 (Int.abs_lt_one_iff.1 none)
    rw [same]
    push_cast
    linarith

theorem Number.value_million : value 1000000 = 1000000 := by
  have shape : binary 1000000 = .finite .positive 8589934592000000 (-33) (by decide) := rfl
  rw [value, shape]
  norm_num [Binary.value, signed]

theorem Number.value_le_million {x : Float} (finite : x.isFinite) (le : x ≤ 1000000) :
    value x ≤ 1000000 := by
  have ordered := (le_iff_value_le finite (by decide)).1 le
  rwa [value_million] at ordered

/-- The printed times of all flashes of a design, in the order of its cues. -/
structure Design.Seams (d : Design) (specs : List AnimateSpec) : Prop where
  length_eq : specs.length = 2 * d.script.length
  seam : ∀ (k : Nat) (cue : Cue), d.script[k]? = some cue → ∃ first second begin duration next,
    specs[2 * k]? = some first ∧ specs[2 * k + 1]? = some second ∧
    first.firstBegin? = some begin ∧ first.duration? = some duration ∧ second.firstBegin? = some next ∧
    Seam (Number.value cue.start) begin duration next

/-- The standard design with a first ramp of an eighth of a second. -/
def Design.shortRamp : Design :=
  { standard with flash := ⟨0.125, 1.2⟩ }

namespace Artwork

variable {d : Design} {a : Artwork}

/-- The first animation of a cue takes as long as the first ramp. -/
theorem duration_of_cue (made : ofDesign d = .ok a) {specs : List AnimateSpec}
    (resolved : a.specs = .ok specs) {k : Nat} {cue : Cue} (place : d.script[k]? = some cue)
    {first : AnimateSpec} (here : specs[2 * k]? = some first) :
    ∃ step : Step, step.duration = d.flash.rampIn ∧ first.duration = step.durationText := by
  obtain ⟨scripted, _, indexed, done, bound, _⟩ := ofDesign_eq_ok made
  obtain ⟨f, _, rampIn, _⟩ := (indexed.follows done).pair k cue place
  have inside : a.timeline.get? ⟨2 * k⟩ =
      some ((Loop.mk scripted.terminal d.loopPolicy).rebind
        (f.rampIn k d.palette.highlight d.flash)) := by
    rw [bound, Loop.bound_get?, rampIn]
    rfl
  obtain ⟨spec, found, made'⟩ := exists_getElem?_of_forall₂ (mapM_eq_ok_iff.1 resolved) inside
  rw [here] at found
  cases found
  exact ⟨_, Loop.rebind_duration _ _, Scene.duration_of_spec made'⟩

/-- All printed seams of a design whose times are within a million seconds. -/
theorem ofDesign_seams (made : ofDesign d = .ok a) (starts : ∀ cue ∈ d.script, cue.start ≤ 1000000)
    (ramp : d.flash.rampIn ≤ 1000000) : ∃ specs, a.specs = .ok specs ∧ d.Seams specs := by
  obtain ⟨specs, resolved, clocks⟩ := ofDesign_clocks made
  obtain ⟨_, sound, _⟩ := ofDesign_eq_ok made
  refine ⟨specs, resolved, clocks.length_eq, ?_⟩
  intro k cue place
  have member := List.mem_of_getElem? place
  have start := sound.starts cue member
  have startNonneg := Number.value_nonneg_of_isStartTime start
  simp only [Design.isStartTime, Bool.and_eq_true] at start
  have startLe := Number.value_le_million start.1 (starts cue member)
  have rampPos := Number.value_pos sound.rampIn.1 sound.rampIn.2
  have rampLe := Number.value_le_million sound.rampIn.1 ramp
  -- The sum is below `2 ^ 21`, and the ramp below `2 ^ 20`.
  have added := Number.isRounded_add start.1 sound.rampIn.1
  have size : |Number.value cue.start + Number.value d.flash.rampIn| < 2 ^ ((-32 : ℤ) + 53) := by
    rw [abs_of_nonneg (by linarith)]
    norm_num
    linarith
  have finite : (cue.start + d.flash.rampIn).isFinite := by
    rw [added.isFinite_iff]
    refine size.trans ((Number.two_zpow_le (t := 970) (by norm_num)).trans_lt ?_)
    exact lt_mul_of_one_lt_left (Number.two_zpow_pos 970) (by norm_num)
  have sum := (added.rounds finite).abs_sub_le (by norm_num) size
  obtain ⟨first, second, here, next, begins, continues⟩ := exists_specs_of_cue made resolved place
  obtain ⟨step, same, text⟩ := duration_of_cue made resolved place here
  have measure : Design.IsMeasure step.duration := by
    rw [same]
    exact sound.rampIn
  obtain ⟨duration, read, rounds⟩ := step.seconds?_durationText measure
  rw [same] at rounds
  have short : duration < 2 ^ (20 : ℤ) := by
    refine rounds.lt_two_zpow (by norm_num) ?_
    norm_num
    linarith
  have nonneg : 0 ≤ duration := by
    by_contra negative
    exact absurd (rounds.nonpos (not_le.1 negative).le) (not_le.2 rampPos)
  have printed := rounds.abs_sub_le (s := -33) (by norm_num) (by
    rw [abs_of_nonneg nonneg]
    exact short)
  obtain ⟨i, firstRead, firstNear⟩ := begins.exists_hundredths start.1
  obtain ⟨j, secondRead, secondNear⟩ := continues.exists_hundredths finite
  refine ⟨first, second, _, duration, _, here, next, firstRead, ?_, secondRead, ?_⟩
  · rw [AnimateSpec.duration?, text, read]
  · refine seam_of_near firstNear secondNear (sum.trans ?_) (printed.trans ?_)
    · norm_num
    · norm_num

theorem ofDesign_seams_standard : ∃ a, ofDesign .standard = .ok a ∧
    (∀ cue ∈ Design.standard.script, cue.start ≤ 1000000) ∧ Design.standard.flash.rampIn ≤ 1000000 ∧
    ∃ specs, a.specs = .ok specs ∧ Design.standard.Seams specs := by
  have passed : Design.standard.validate = .ok () := rfl
  have drawn : ∀ cue ∈ Design.standard.script, cue.target.Drawn := by decide
  have starts : ∀ cue ∈ Design.standard.script, cue.start ≤ 1000000 := by decide
  have ramp : Design.standard.flash.rampIn ≤ 1000000 := by decide
  obtain ⟨a, made⟩ := exists_ofDesign_of_drawn passed drawn
  exact ⟨a, made, starts, ramp, ofDesign_seams made starts ramp⟩

/-- With a first ramp of an eighth of a second, the second ramp of a flash at zero is printed to begin
half a hundredth before the first one ends. -/
theorem ofDesign_shortRamp : ∃ a specs first second, ofDesign .shortRamp = .ok a ∧ a.specs = .ok specs ∧
    (∀ cue ∈ Design.shortRamp.script, cue.start ≤ 1000000) ∧
    Design.shortRamp.flash.rampIn ≤ 1000000 ∧ Design.shortRamp.flash.rampOut ≤ 1000000 ∧
    specs[0]? = some first ∧ specs[1]? = some second ∧ first.firstBegin? = some 0 ∧
    first.duration? = some (1 / 8) ∧ second.firstBegin? = some (3 / 25) ∧ (3 / 25 : ℚ) ≠ 0 + 1 / 8 := by
  have passed : Design.shortRamp.validate = .ok () := rfl
  have drawn : ∀ cue ∈ Design.shortRamp.script, cue.target.Drawn := by decide
  obtain ⟨a, made⟩ := exists_ofDesign_of_drawn passed drawn
  obtain ⟨_, _, _, _, _, specs, resolved⟩ := ofDesign_eq_ok made
  have place : Design.shortRamp.script[0]? = some ⟨.node (.fan .left), 0.0⟩ := rfl
  obtain ⟨first, second, here, next, begins, continues⟩ := exists_specs_of_cue made resolved place
  obtain ⟨step, ramp, takes⟩ := duration_of_cue made resolved place here
  have zero : Number.Literal.ofString? (Number.places 2 0.0) = some (.decimal false 0 (-2)) := by decide
  have eighth : Number.Literal.ofString? (Number.plain 0.125) = some (.decimal false 125 (-3)) := by decide
  have sum : Number.Literal.ofString? (Number.places 2 (0.0 + 0.125)) = some (.decimal false 12 (-2)) := by
    decide
  have duration : step.durationText.toList = (Number.plain 0.125).toList ++ ['s'] := by
    rw [Step.durationText, ramp]
    decide
  refine ⟨a, specs, first, second, made, resolved, by decide, by decide, by decide, here, next, ?_, ?_,
    ?_, by norm_num⟩
  · rw [begins.firstBegin?_eq, Number.exactly?, String.ofList_toList, zero]
    norm_num [Number.Literal.value?]
  · rw [AnimateSpec.duration?, takes, duration, seconds?_append (by decide), Number.exactly?,
      String.ofList_toList, eighth]
    norm_num [Number.Literal.value?]
  · have offset : Design.shortRamp.flash.rampIn = 0.125 := rfl
    rw [continues.firstBegin?_eq, offset, Number.exactly?, String.ofList_toList, sum]
    norm_num [Number.Literal.value?]

end Artwork

end Emblem
