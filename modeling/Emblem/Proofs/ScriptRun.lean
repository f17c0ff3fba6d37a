/-
Module: Emblem.Proofs.ScriptRun
Purpose: Scripts, cue by cue: when a cue finds its element, what its flash adds, and what the
  timeline of a whole script keeps from one cue to the next.
Main exports: Scene.Shows, Cue.Target.missing, Scene.Covers, Timeline.addCue_eq_ok_iff,
  Timeline.addCues_preserves, Timeline.exists_addCues, Timeline.addCues_of_missing,
  Timeline.ofScript_eq_ok_iff
-/
import Emblem.Proofs.TimelineRun
import Emblem.Timeline.Script

namespace Emblem

/-- The error of a cue that points at nothing. -/
def Cue.Target.missing : Cue.Target → Error
  | node key => .noNode key
  | edge key => .noEdge key

namespace Scene

/-- A scene has the element that a cue names. -/
def Shows (s : Scene) : Cue.Target → Prop
  | .node key => key ∈ s.nodeKeys
  | .edge key => key ∈ s.edgeKeys

/-- Every step of a timeline points at an element of a scene. -/
def Covers (s : Scene) (t : Timeline) : Prop :=
  ∀ step ∈ t.steps, ∃ id, s.elementId step.target = .ok id

variable {s : Scene}

theorem Indexed.exists_nodeByKey (indexed : s.Indexed) {key : NodeKey}
    (shown : key ∈ s.nodeKeys) :
    ∃ n, s.nodeByKey key = .ok n ∧ s.node n.id = .ok n := by
  obtain ⟨n, member, named⟩ := List.mem_map.1 shown
  exact ⟨n, indexed.nodeByKey_eq_ok_iff.2 ⟨member, named⟩, indexed.node_self member⟩

theorem Indexed.exists_edgeByKey (indexed : s.Indexed) {key : EdgeKey}
    (shown : key ∈ s.edgeKeys) :
    ∃ e, s.edgeByKey key = .ok e ∧ s.edge e.id = .ok e := by
  obtain ⟨e, member, named⟩ := List.mem_map.1 shown
  exact ⟨e, indexed.edgeByKey_eq_ok_iff.2 ⟨member, named⟩, indexed.edge_self member⟩

/-- A cue finds the element that it names, with its colour and its id. -/
theorem Indexed.exists_resolve (indexed : s.Indexed) {target : Cue.Target}
    (shown : s.Shows target) :
    ∃ ref color id, s.resolve target = .ok ref ∧ s.restingColor ref = .ok color ∧
      s.elementId ref = .ok id := by
  cases target with
  | node key =>
      obtain ⟨n, found, self⟩ := indexed.exists_nodeByKey shown
      exact ⟨.node n.id, n.fill, n.key.elementId, map_eq_ok_iff.2 ⟨n, found, rfl⟩,
        map_eq_ok_iff.2 ⟨n, self, rfl⟩, map_eq_ok_iff.2 ⟨n, self, rfl⟩⟩
  | edge key =>
      obtain ⟨e, found, self⟩ := indexed.exists_edgeByKey shown
      exact ⟨.edge e.id, e.stroke, e.key.elementId, map_eq_ok_iff.2 ⟨e, found, rfl⟩,
        map_eq_ok_iff.2 ⟨e, self, rfl⟩, map_eq_ok_iff.2 ⟨e, self, rfl⟩⟩

/-- A cue that names nothing is refused for it. -/
theorem Indexed.resolve_of_not_shows (indexed : s.Indexed) {target : Cue.Target}
    (absent : ¬s.Shows target) : s.resolve target = .error target.missing := by
  cases target with
  | node key => exact map_eq_error_iff.2 (indexed.nodeByKey_of_notMem absent)
  | edge key => exact map_eq_error_iff.2 (indexed.edgeByKey_of_notMem absent)

theorem covers_empty (s : Scene) (highlight : Color) (ramps : Ramps) :
    s.Covers (Timeline.empty highlight ramps) := by
  intro step member
  cases member

end Scene

namespace Timeline

variable {s : Scene}

/-- A cue succeeds if its element is found and the flash of it succeeds. -/
theorem addCue_eq_ok_iff {t after : Timeline} {cue : Cue} {id : StepId} :
    addCue s t cue = .ok (id, after) ↔
      ∃ target resting, s.resolve cue.target = .ok target ∧ s.restingColor target = .ok resting ∧
        t.flash target resting cue.start (.ofTarget target) = .ok (id, after) := by
  simp only [addCue, bind_eq_ok_iff]
  constructor
  · intro done
    obtain ⟨target, found, resting, color, flashed⟩ := done
    exact ⟨target, resting, found, color, flashed⟩
  · intro done
    obtain ⟨target, resting, found, color, flashed⟩ := done
    exact ⟨target, found, resting, color, flashed⟩

/-- What each cue keeps is kept by a whole script. -/
theorem addCues_preserves {Inv : Timeline → Prop} {cues : List Cue}
    (keeps : ∀ cue ∈ cues, ∀ t id after, Inv t → addCue s t cue = .ok (id, after) → Inv after)
    {t after : Timeline} {last reached : Option StepId} (start : Inv t)
    (done : addCues s last t cues = .ok (reached, after)) : Inv after := by
  induction cues generalizing t last with
  | nil =>
      cases done
      exact start
  | cons cue rest ih =>
      obtain ⟨⟨id, next⟩, here, later⟩ := bind_eq_ok_iff.1 done
      have kept := keeps cue List.mem_cons_self t id next start here
      exact ih (fun c member => keeps c (List.mem_cons_of_mem _ member)) kept later

/-- The step that a script ends with is the last one there is. -/
theorem addCues_last {cues : List Cue} {t after : Timeline} {last reached : Option StepId}
    (earlier : ∀ id, last = some id → id.index + 1 = t.size)
    (done : addCues s last t cues = .ok (reached, after)) :
    ∀ id, reached = some id → id.index + 1 = after.size := by
  induction cues generalizing t last with
  | nil =>
      cases done
      exact earlier
  | cons cue rest ih =>
      obtain ⟨⟨id, next⟩, here, later⟩ := bind_eq_ok_iff.1 done
      apply ih _ later
      intro id' same
      cases same
      obtain ⟨target, resting, _, _, flashed⟩ := addCue_eq_ok_iff.1 here
      obtain ⟨_, rfl, rfl⟩ := flash_eq_ok_iff.1 flashed
      simp [size, pushFlash]

/-- A script with cues ends with a step. -/
theorem addCues_ne_none {cues : List Cue} {t after : Timeline} {last : Option StepId}
    (some_cue : cues ≠ [] ∨ last ≠ none) :
    addCues s last t cues ≠ .ok (none, after) := by
  induction cues generalizing t last with
  | nil =>
      intro done
      cases done
      simp at some_cue
  | cons cue rest ih =>
      intro done
      obtain ⟨⟨id, next⟩, _, later⟩ := bind_eq_ok_iff.1 done
      exact ih (.inr (by simp)) later

/-- The flash of a cue that the scene shows succeeds if its start is a time, and it points into
the scene. -/
theorem exists_addCue (indexed : s.Indexed) {t : Timeline} {cue : Cue} (covered : s.Covers t)
    (shown : s.Shows cue.target) (starts : Design.isStartTime cue.start) :
    ∃ id after, addCue s t cue = .ok (id, after) ∧ s.Covers after := by
  obtain ⟨ref, color, name, found, resting, named⟩ := indexed.exists_resolve shown
  have flashed : t.flash ref color cue.start (.ofTarget ref) =
      .ok (⟨t.size + 1⟩, t.pushFlash ref color cue.start (.ofTarget ref)) :=
    flash_eq_ok_iff.2 ⟨starts, rfl, rfl⟩
  refine ⟨_, _, addCue_eq_ok_iff.2 ⟨ref, color, found, resting, flashed⟩, ?_⟩
  intro step member
  rcases List.mem_append.1 member with earlier | new
  · exact covered step earlier
  · simp only [List.mem_cons, List.not_mem_nil, or_false] at new
    rcases new with rfl | rfl
    · exact ⟨name, named⟩
    · exact ⟨name, named⟩

/-- So does a script whose cues are all shown and all start at a time. -/
theorem exists_addCues (indexed : s.Indexed) {cues : List Cue} {t : Timeline}
    {last : Option StepId} (covered : s.Covers t) (shown : ∀ cue ∈ cues, s.Shows cue.target)
    (starts : ∀ cue ∈ cues, Design.isStartTime cue.start) :
    ∃ reached after, addCues s last t cues = .ok (reached, after) ∧ s.Covers after := by
  induction cues generalizing t last with
  | nil => exact ⟨last, t, rfl, covered⟩
  | cons cue rest ih =>
      obtain ⟨id, next, here, covers⟩ := exists_addCue indexed covered
        (shown cue List.mem_cons_self) (starts cue List.mem_cons_self)
      have others : ∃ reached after, addCues s (some id) next rest = .ok (reached, after) ∧
          s.Covers after :=
        ih covers (fun c member => shown c (List.mem_cons_of_mem _ member))
          (fun c member => starts c (List.mem_cons_of_mem _ member))
      obtain ⟨reached, after, later, all⟩ := others
      exact ⟨reached, after, bind_eq_ok_iff.2 ⟨(id, next), here, later⟩, all⟩

/-- A script is refused for the first of its cues that is not shown. -/
theorem addCues_of_missing (indexed : s.Indexed) {before rest : List Cue} {cue : Cue}
    {t : Timeline} {last : Option StepId} (covered : s.Covers t)
    (shown : ∀ c ∈ before, s.Shows c.target)
    (starts : ∀ c ∈ before, Design.isStartTime c.start) (absent : ¬s.Shows cue.target) :
    addCues s last t (before ++ cue :: rest) = .error cue.target.missing := by
  induction before generalizing t last with
  | nil =>
      have refused : addCue s t cue = .error cue.target.missing :=
        bind_eq_error_iff.2 (.inl (indexed.resolve_of_not_shows absent))
      exact bind_eq_error_iff.2 (.inl refused)
  | cons c others ih =>
      obtain ⟨id, next, here, covers⟩ := exists_addCue indexed covered
        (shown c List.mem_cons_self) (starts c List.mem_cons_self)
      have later : addCues s (some id) next (others ++ cue :: rest) = .error cue.target.missing :=
        ih covers (fun b member => shown b (List.mem_cons_of_mem _ member))
          (fun b member => starts b (List.mem_cons_of_mem _ member))
      exact bind_eq_error_iff.2 (.inr ⟨(id, next), here, later⟩)

/-! ### Whole scripts -/

theorem ofScript_eq_ok_iff {s : Scene} {cues : List Cue} {highlight : Color}
    {ramps : Ramps} {scripted : Scripted} :
    ofScript s cues highlight ramps = .ok scripted ↔
      addCues s none (Timeline.empty highlight ramps) cues =
        .ok (some scripted.terminal, scripted.timeline) := by
  unfold ofScript
  rw [bind_eq_ok_iff]
  constructor
  · intro done
    obtain ⟨⟨last, t⟩, added, ended⟩ := done
    cases last with
    | none => cases ended
    | some terminal =>
        cases ended
        exact added
  · intro added
    exact ⟨_, added, rfl⟩

/-- The terminal of a script is a step of its timeline. -/
theorem terminal_lt {s : Scene} {cues : List Cue} {highlight : Color} {ramps : Ramps}
    {scripted : Scripted} (done : ofScript s cues highlight ramps = .ok scripted) :
    scripted.terminal.index < scripted.timeline.size := by
  have added := ofScript_eq_ok_iff.1 done
  have last := addCues_last (fun _ impossible => by cases impossible) added _ rfl
  omega

end Timeline

end Emblem
