/-
Module: Emblem.Proofs.ClockValues
Purpose: The begin times and durations of a drawing as clock values. Durations always are. Begin
  times are too, but for two kinds that the check of a design lets through: a start at minus zero is
  written with its sign, and a start so late that the sum with the first ramp overflows is written
  as infinity.
Main exports: IsBeginList, IsDuration, Begin.isBeginList_text_iff, Step.isDuration_durationText,
  Artwork.ofDesign_clocks, Artwork.ofDesign_minusZero
-/
import Emblem.Proofs.DecimalText
import Emblem.Proofs.DocumentReferences
import Emblem.Proofs.Refusals
import Emblem.Proofs.ScriptOutcome

namespace Emblem

open Number (IsNumeral IsDecimal)

/-! ### Clock values -/

/-- A begin time or a list of two, as documents have them: an offset with two places, and after it
the same offset from each end of a step. -/
inductive IsBeginList : String → Prop where
  | once {offset : List Char} (decimal : IsDecimal 2 offset) :
      IsBeginList ("+" ++ .ofList offset ++ "s")
  | chained {offset anchor : List Char} (decimal : IsDecimal 2 offset) (numeral : IsNumeral anchor) :
      IsBeginList ("+" ++ .ofList offset ++ "s; anim-" ++ .ofList anchor ++ ".end+" ++
        .ofList offset ++ "s")

/-- A duration as documents have it, in seconds. -/
inductive IsDuration : String → Prop where
  | seconds {places : Nat} {number : List Char} (decimal : IsDecimal places number) :
      IsDuration (.ofList number ++ "s")

theorem IsBeginList.exists_decimal {text : String} (list : IsBeginList text) :
    ∃ offset rest, IsDecimal 2 offset ∧ text.toList = '+' :: (offset ++ 's' :: rest) := by
  cases list with
  | once decimal => exact ⟨_, [], decimal, by simp⟩
  | chained decimal _ => exact ⟨_, _, decimal, by simp; rfl⟩

theorem Begin.exists_text (b : Begin) :
    ∃ rest, b.text.toList = '+' :: ((Number.places 2 b.offset).toList ++ 's' :: rest) := by
  cases b with
  | once t => exact ⟨[], by simp [text, offsetText, offset]⟩
  | chained t anchor => exact ⟨_, by simp [text, offsetText, offset]; rfl⟩

/-- A begin time is one of a document just if its offset is finite and has no minus sign. -/
theorem Begin.isBeginList_text_iff {b : Begin} :
    IsBeginList b.text ↔
      b.offset.isFinite ∧ (Number.binary b.offset).sign? = some .positive := by
  have written : IsDecimal 2 (Number.places 2 b.offset).toList ↔
      b.offset.isFinite ∧ (Number.binary b.offset).sign? = some .positive :=
    Number.Binary.isDecimal_places_iff (by decide)
  rw [← written]
  constructor
  · intro list
    obtain ⟨offset, rest, decimal, split⟩ := list.exists_decimal
    obtain ⟨rest', split'⟩ := b.exists_text
    have same := (List.cons.inj (split'.symm.trans split)).2
    have noUnit : 's' ∉ (Number.places 2 b.offset).toList := by
      intro member
      rcases Number.mem_places member with digit | letter
      · cases digit
      · exact absurd letter (by decide)
    have noUnit' : 's' ∉ offset := by
      intro member
      rcases decimal.isDigit_or_point member with digit | point
      · cases digit
      · cases point
    have cut : ∀ {cs rest : List Char}, 's' ∉ cs →
        (cs ++ 's' :: rest).takeWhile (· != 's') = cs := by
      intro cs rest absent
      rw [List.takeWhile_append_of_pos]
      · simp
      · intro c member
        simpa using ne_of_mem_of_not_mem member absent
    rw [← cut noUnit, same, cut noUnit']
    exact decimal
  · intro decimal
    cases b with
    | once t =>
        have list := IsBeginList.once decimal
        rw [String.ofList_toList] at list
        exact list
    | chained t anchor =>
        have list := IsBeginList.chained decimal (Number.isNumeral_digits anchor.index)
        have whole : (chained t anchor).text = "+" ++ .ofList (Number.places 2 t).toList ++
            "s; anim-" ++ .ofList (Number.digits anchor.index) ++ ".end+" ++
            .ofList (Number.places 2 t).toList ++ "s" := by
          apply String.toList_inj.1
          simp [text, offsetText, StepId.elementId, Number.digits]
        rw [whole]
        exact list

example : (Begin.chained (-0.0) ⟨1⟩).text = "+-0.00s; anim-1.end+-0.00s" := by decide

/-- A duration that passes the check of a design is written as one of a document. -/
theorem Step.isDuration_durationText {s : Step} (measure : Design.IsMeasure s.duration) :
    IsDuration s.durationText := by
  have positive := Number.value_pos measure.1 measure.2
  unfold durationText
  cases whole : (Number.binary s.duration).isWhole with
  | true =>
      obtain ⟨m, e, m_pos, shape⟩ := Number.Binary.exists_positive positive
      have decimal : IsDecimal 1 (Number.places 1 s.duration).toList := by
        rw [Number.places, Number.Binary.isDecimal_places_iff (by decide), shape]
        exact ⟨rfl, rfl⟩
      have duration := IsDuration.seconds decimal
      rw [String.ofList_toList] at duration
      exact duration
  | false =>
      obtain ⟨places, decimal⟩ := Number.isDecimal_plain positive whole
      have duration := IsDuration.seconds decimal
      rw [String.ofList_toList] at duration
      exact duration

/-! ### Starts and sums -/

/-- Of the times at which a flash can start, only one has a minus sign. -/
theorem Design.isStartTime_sign_iff {x : Float} (start : isStartTime x) :
    (Number.binary x).sign? = some .positive ↔ Number.binary x ≠ .zero .negative := by
  have nonneg := Number.value_nonneg_of_isStartTime start
  simp only [isStartTime, Bool.and_eq_true] at start
  have finite : (Number.binary x).isFinite := start.1
  rcases Number.Binary.eq_zero_or_positive finite nonneg with ⟨s, shape⟩ | ⟨m, e, m_pos, shape⟩
  · rw [shape]
    cases s <;> simp [Number.Binary.sign?]
  · rw [shape]
    simp [Number.Binary.sign?]

/-- The time at which a first ramp ends has no minus sign, so that it can be written unless the sum
overflows. -/
theorem Design.rampEnd_sign {x y : Float} (start : isStartTime x) (ramp : IsMeasure y) :
    (Number.binary (x + y)).sign? = some .positive := by
  have nonneg := Number.value_nonneg_of_isStartTime start
  simp only [isStartTime, Bool.and_eq_true] at start
  exact Number.sign_add start.1 nonneg (Number.value_pos ramp.1 ramp.2)

/-! ### The animations of a design -/

theorem Scene.duration_of_spec {s : Scene} {step : Step} {spec : AnimateSpec}
    (resolved : s.spec step = .ok spec) : spec.duration = step.durationText := by
  obtain ⟨id, _, made⟩ := bind_eq_ok_iff.1 resolved
  cases made
  rfl

/-- An animation begins at an offset: once, or also after each end of some step. -/
def AnimateSpec.BeginsAt (spec : AnimateSpec) (offset : Float) : Prop :=
  ∃ b : Begin, b.offset = offset ∧ spec.begin = b.text

theorem AnimateSpec.BeginsAt.isBeginList_iff {spec : AnimateSpec} {t : Float}
    (begins : spec.BeginsAt t) :
    IsBeginList spec.begin ↔ t.isFinite ∧ (Number.binary t).sign? = some .positive := by
  obtain ⟨b, rfl, written⟩ := begins
  rw [written]
  exact Begin.isBeginList_text_iff

/-- The clock values of the animations of a design, of which each cue has two. The first one begins
when the cue starts, which can be minus zero, and the second one after the first ramp, a sum which
can overflow; else both begin times are such as documents have. -/
structure Design.Clocks (d : Design) (specs : List AnimateSpec) : Prop where
  length_eq : specs.length = 2 * d.script.length
  duration : ∀ spec ∈ specs, IsDuration spec.duration
  begins : ∀ (k : Nat) (cue : Cue), d.script[k]? = some cue → ∃ first second,
    specs[2 * k]? = some first ∧ specs[2 * k + 1]? = some second ∧
    (IsBeginList first.begin ↔ Number.binary cue.start ≠ .zero .negative) ∧
    (IsBeginList second.begin ↔ (cue.start + d.flash.rampIn).isFinite)

/-- The standard design with one cue, which starts at minus zero. -/
def Design.minusZero : Design :=
  { standard with script := [⟨.node (.ring 0), -0.0⟩] }

namespace Artwork

variable {d : Design} {a : Artwork}

/-- What a design has passed that has an artwork. -/
theorem ofDesign_eq_ok (made : ofDesign d = .ok a) :
    ∃ scripted, d.Sound ∧ a.scene.Indexed ∧
      Timeline.ofScript a.scene d.script d.palette.highlight d.flash = .ok scripted ∧
      a.timeline = (Loop.mk scripted.terminal d.loopPolicy).bound scripted.timeline ∧
      ∃ specs, a.specs = .ok specs := by
  obtain ⟨scripted, drawing, stages⟩ := exists_stages made
  obtain ⟨specs, resolved, _⟩ := stages.exists_specs
  have bound := stages.timeline
  rw [stages.loop] at bound
  exact ⟨scripted, Design.validate_eq_ok_iff.1 stages.passed, stages.indexed, stages.script, bound,
    specs, resolved⟩

/-- Every animation takes as long as one of the two ramps. -/
theorem isDuration_of_mem (made : ofDesign d = .ok a) {specs : List AnimateSpec}
    (resolved : a.specs = .ok specs) {spec : AnimateSpec} (member : spec ∈ specs) :
    IsDuration spec.duration := by
  obtain ⟨scripted, sound, indexed, done, bound, _⟩ := ofDesign_eq_ok made
  obtain ⟨_, fs, _, timeline⟩ := indexed.exists_flashes done
  obtain ⟨step, inside, here⟩ := exists_of_mem_right (mapM_eq_ok_iff.1 resolved) member
  rw [bound, timeline] at inside
  obtain ⟨free, among, rfl⟩ := List.mem_map.1 inside
  rw [Scene.duration_of_spec here]
  apply Step.isDuration_durationText
  rw [Loop.rebind_duration]
  obtain ⟨k, f, _, rfl | rfl⟩ := Timeline.mem_ofFlashes_iff.1 among
  · exact sound.rampIn
  · exact sound.rampOut

/-- A step of the unbound timeline has an animation, which begins at its offset. -/
theorem exists_spec_of_get? {scripted : Scripted} {l : Loop} {specs : List AnimateSpec}
    (bound : a.timeline = l.bound scripted.timeline) (resolved : a.specs = .ok specs) {i : Nat}
    {step : Step} (there : scripted.timeline.get? ⟨i⟩ = some step) :
    ∃ spec, specs[i]? = some spec ∧ spec.BeginsAt step.begin.offset := by
  have place : a.timeline.get? ⟨i⟩ = some (l.rebind step) := by
    rw [bound, Loop.bound_get?, there]
    rfl
  obtain ⟨spec, found, here⟩ := exists_getElem?_of_forall₂ (mapM_eq_ok_iff.1 resolved) place
  exact ⟨spec, found, _, l.rebind_offset step, (Svg.spec_eq_ok here).2.1⟩

/-- The two animations of a cue begin when it starts, and after the first ramp. -/
theorem exists_specs_of_cue (made : ofDesign d = .ok a) {specs : List AnimateSpec}
    (resolved : a.specs = .ok specs) {k : Nat} {cue : Cue} (place : d.script[k]? = some cue) :
    ∃ first second, specs[2 * k]? = some first ∧ specs[2 * k + 1]? = some second ∧
      first.BeginsAt cue.start ∧ second.BeginsAt (cue.start + d.flash.rampIn) := by
  obtain ⟨scripted, _, indexed, done, bound, _⟩ := ofDesign_eq_ok made
  obtain ⟨f, prompts, rampIn, rampOut⟩ := (indexed.follows done).pair k cue place
  obtain ⟨first, here, begins⟩ := exists_spec_of_get? bound resolved rampIn
  obtain ⟨second, next, continues⟩ := exists_spec_of_get? bound resolved rampOut
  rw [← prompts.start_eq]
  exact ⟨first, second, here, next, begins, continues⟩

/-- Whatever design has an artwork, all its animations have durations, and begin times as far as
their offsets can be written. -/
theorem ofDesign_clocks (made : ofDesign d = .ok a) :
    ∃ specs, a.specs = .ok specs ∧ d.Clocks specs := by
  obtain ⟨scripted, sound, indexed, done, bound, specs, resolved⟩ := ofDesign_eq_ok made
  refine ⟨specs, resolved, ?_, fun _ member => isDuration_of_mem made resolved member, ?_⟩
  · have size := (indexed.follows done).size_eq
    rw [← Loop.bound_size ⟨scripted.terminal, d.loopPolicy⟩, ← bound] at size
    rw [← (mapM_eq_ok_iff.1 resolved).length_eq]
    exact size
  · intro k cue place
    obtain ⟨first, second, here, next, begins, continues⟩ := exists_specs_of_cue made resolved place
    have start := sound.starts cue (List.mem_of_getElem? place)
    refine ⟨first, second, here, next, ?_, ?_⟩
    · have finite : cue.start.isFinite := by
        simp only [Design.isStartTime, Bool.and_eq_true] at start
        exact start.1
      rw [begins.isBeginList_iff, Design.isStartTime_sign_iff start]
      simp [finite]
    · rw [continues.isBeginList_iff]
      constructor
      · exact fun written => written.1
      · exact fun finite => ⟨finite, Design.rampEnd_sign start sound.rampIn⟩

theorem ofDesign_clocks_standard : ∃ a, ofDesign .standard = .ok a ∧
    ∃ specs, a.specs = .ok specs ∧ Design.standard.Clocks specs := by
  have passed : Design.standard.validate = .ok () := rfl
  have drawn : ∀ cue ∈ Design.standard.script, cue.target.Drawn := by decide
  obtain ⟨a, made⟩ := exists_ofDesign_of_drawn passed drawn
  exact ⟨a, made, ofDesign_clocks made⟩

/-- A start at minus zero passes the check, and the first begin time that comes of it is none that
documents have. -/
theorem ofDesign_minusZero : ∃ a specs spec, ofDesign .minusZero = .ok a ∧ a.specs = .ok specs ∧
    specs[0]? = some spec ∧ ¬IsBeginList spec.begin := by
  have passed : Design.minusZero.validate = .ok () := rfl
  have drawn : ∀ cue ∈ Design.minusZero.script, cue.target.Drawn := by decide
  obtain ⟨a, made⟩ := exists_ofDesign_of_drawn passed drawn
  obtain ⟨_, _, _, _, _, specs, resolved⟩ := ofDesign_eq_ok made
  have place : Design.minusZero.script[0]? = some ⟨.node (.ring 0), -0.0⟩ := rfl
  obtain ⟨first, _, here, _, begins, _⟩ := exists_specs_of_cue made resolved place
  refine ⟨a, specs, first, made, resolved, here, ?_⟩
  intro list
  have sign := (begins.isBeginList_iff.1 list).2
  cases sign

end Artwork

end Emblem
