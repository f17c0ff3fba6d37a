/-
Module: Emblem.Proofs.LoopPolicies
Purpose: What the policy of a loop changes. Two designs that differ in nothing else are refused alike, or
  have artworks that differ in the begin of the step that ends a cycle and nowhere else.
Main exports: Design.withPolicy, Begin.again, Loop.exists_bound_steps, Artwork.Switched,
  Artwork.ofDesign_switched
-/
import Emblem.Proofs.CommandRuns
import Emblem.Proofs.LoopConservation
import Emblem.Proofs.ScriptLoop
import Emblem.Proofs.ScriptOutcome

namespace Emblem

/-- A design with another policy. -/
def Design.withPolicy (d : Design) (policy : LoopPolicy) : Design :=
  { d with loopPolicy := policy }

/-- A begin time, and the same again after each end of a step. -/
def Begin.again (anchor : StepId) (once : String) : String :=
  once ++ "; " ++ anchor.elementId ++ ".end" ++ once

theorem Begin.text_chained (t : Float) (anchor : StepId) :
    (chained t anchor).text = again anchor (once t).text :=
  rfl

/-! ### Two bindings of one timeline -/

namespace Loop

variable {t : Timeline} {terminal : StepId}

/-- A binding does not change how long a cycle takes. -/
theorem period_bound {l : Loop} {last : Step} (there : t.get? l.terminal = some last) :
    l.period (l.bound t) = .ok last.finish := by
  rw [period_of_bound, period, there]

theorem rebind_eq_chain {s : Step} (policy : LoopPolicy)
    (follows : policy = .includeTerminal ∨ s.id ≠ terminal) :
    Loop.rebind ⟨terminal, policy⟩ s = chain ⟨terminal, .includeTerminal⟩ s := by
  have left : Loop.leaves ⟨terminal, policy⟩ s = false := by
    rcases follows with rfl | other
    · simp [leaves]
    · simp [leaves, other]
  rw [rebind, left]
  rfl

/-- If the terminal is the last step, then loops with different policies agree in all other steps, which
are chained. The last one is chained by the loop that includes it. -/
theorem exists_bound_steps (anchored : t.Anchored) (ends : terminal.index + 1 = t.size) :
    ∃ others last, t.get? terminal = some last ∧
      ((Loop.mk terminal .includeTerminal).bound t).steps =
        others ++ [chain ⟨terminal, .includeTerminal⟩ last] ∧
      ((Loop.mk terminal .excludeTerminal).bound t).steps = others ++ [last] ∧
      ∀ r ∈ others, r.begin = .chained r.begin.offset terminal := by
  obtain ⟨first, last, split⟩ : ∃ first last, t.steps = first ++ [last] := by
    rcases List.eq_nil_or_concat' t.steps with none | ⟨first, last, split⟩
    · rw [Timeline.size, none] at ends
      cases ends
    · exact ⟨first, last, split⟩
  have length : terminal.index = first.length := by
    rw [Timeline.size, split, List.length_append] at ends
    exact Nat.succ.inj ends
  have there : t.get? terminal = some last := by
    rw [Timeline.get?, split]
    exact getElem?_concat_eq_some_iff.2 (.inr ⟨length, rfl⟩)
  have before : ∀ s ∈ first, s.id ≠ terminal := by
    intro s member same
    obtain ⟨k, early, rfl⟩ := List.getElem_of_mem member
    have place : t.steps[k]? = some first[k] := by
      rw [split]
      exact getElem?_concat_eq_some_iff.2 (.inl (List.getElem?_eq_getElem early))
    rw [anchored.step_id k _ place] at same
    rw [← same] at length
    exact Nat.ne_of_lt early length
  have others (policy : LoopPolicy) : first.map (Loop.rebind ⟨terminal, policy⟩) =
      first.map (chain ⟨terminal, .includeTerminal⟩) :=
    List.map_congr_left fun s member => rebind_eq_chain policy (.inr (before s member))
  have kept : Loop.rebind ⟨terminal, .excludeTerminal⟩ last = last := by
    rw [← anchored.id_of_get? there]
    exact rebind_terminal last
  refine ⟨first.map (chain ⟨terminal, .includeTerminal⟩), last, there, ?_, ?_, ?_⟩
  · rw [bound, split, List.map_append, others, List.map_singleton, rebind_eq_chain _ (.inl rfl)]
  · rw [bound, split, List.map_append, others, List.map_singleton, kept]
  · intro r member
    obtain ⟨s, _, rfl⟩ := List.mem_map.1 member
    rfl

end Loop

/-- The begin of a step is one value of its element and touches none of the others. -/
theorem Scene.spec_begin {s : Scene} {step : Step} {spec : AnimateSpec} (begin : Begin)
    (worked : s.spec step = .ok spec) :
    s.spec { step with begin := begin } = .ok { spec with begin := begin.text } := by
  obtain ⟨target, named, same⟩ := bind_eq_ok_iff.1 worked
  cases same
  exact bind_eq_ok_iff.2 ⟨target, named, rfl⟩

theorem Scene.begin_of_spec {s : Scene} {step : Step} {spec : AnimateSpec}
    (worked : s.spec step = .ok spec) : spec.begin = step.begin.text := by
  obtain ⟨target, named, same⟩ := bind_eq_ok_iff.1 worked
  cases same
  rfl

/-- Timelines that differ in the begin of the last step alone have animations that do. -/
theorem Scene.specs_concat {s : Scene} {t t' : Timeline} {others : List Step} {last : Step}
    {begin : Begin} {resolved : List AnimateSpec} (done : s.specs t = .ok resolved)
    (steps : t.steps = others ++ [{ last with begin := begin }]) (steps' : t'.steps = others ++ [last]) :
    ∃ (earlier : List AnimateSpec) (spec : AnimateSpec),
      List.Forall₂ (fun r spec => s.spec r = .ok spec) others earlier ∧
      s.specs t = .ok (earlier ++ [{ spec with begin := begin.text }]) ∧
      s.specs t' = .ok (earlier ++ [{ spec with begin := last.begin.text }]) := by
  rw [specs, steps, mapM_concat_eq_ok_iff] at done
  obtain ⟨earlier, spec, before, here, rfl⟩ := done
  have plain := spec_begin last.begin here
  refine ⟨earlier, spec, mapM_eq_ok_iff.1 before, ?_, ?_⟩
  · rw [specs, steps, mapM_concat_eq_ok_iff]
    exact ⟨earlier, _, before, spec_begin begin plain, rfl⟩
  · rw [specs, steps', mapM_concat_eq_ok_iff]
    exact ⟨earlier, _, before, plain, rfl⟩

/-! ### Two artworks of one design -/

/-- Artworks of a script that differ in the policy of their loops: the first has its terminal in the
loop and the second one has not. -/
structure Artwork.Switched (script : List Cue) (included excluded : Artwork) : Prop where
  still : included.still = excluded.still
  terminal : included.loop.terminal = ⟨2 * script.length - 1⟩ ∧
    excluded.loop.terminal = ⟨2 * script.length - 1⟩
  period : ∃ p, included.period = .ok p ∧ excluded.period = .ok p
  duration : included.timeline.duration = excluded.timeline.duration
  /-- The last steps differ in their begins. Those before them begin as the included last one does: at
  a time of their own, and again after each end of the terminal. -/
  specs : ∃ (earlier : List AnimateSpec) (last : AnimateSpec) (step : Step) (t : Float),
    earlier.length + 1 = 2 * script.length ∧
    excluded.timeline.get? ⟨2 * script.length - 1⟩ = some step ∧ step.begin = .once t ∧
    included.specs = .ok (earlier ++
      [{ last with begin := Begin.again ⟨2 * script.length - 1⟩ (Begin.once t).text }]) ∧
    excluded.specs = .ok (earlier ++ [{ last with begin := (Begin.once t).text }]) ∧
    ∀ (k : Nat) (spec : AnimateSpec), earlier[k]? = some spec → ∃ r,
      excluded.timeline.get? ⟨k⟩ = some r ∧
      spec.begin = Begin.again ⟨2 * script.length - 1⟩ (Begin.once r.begin.offset).text

namespace Artwork

variable {d : Design}

/-- Whatever a design is refused for, it is refused for it with every policy. -/
theorem ofDesign_withPolicy_error {e : Error} {policy : LoopPolicy}
    (refused : ofDesign (d.withPolicy policy) = .error e) (other : LoopPolicy) :
    ofDesign (d.withPolicy other) = .error e := by
  cases check : d.validate with
  | error fault =>
      have invalid (policy : LoopPolicy) : ofDesign (d.withPolicy policy) = .error fault :=
        ofDesign_of_invalid (d := d.withPolicy policy) check
      rw [invalid policy] at refused
      rw [invalid other, refused]
  | ok u =>
      have undrawn : ¬∀ cue ∈ d.script, cue.target.Drawn := by
        intro drawn
        obtain ⟨a, made⟩ := exists_ofDesign_of_drawn (d := d.withPolicy policy) check drawn
        rw [made] at refused
        cases refused
      obtain ⟨cue, first⟩ := exists_firstUndrawn undrawn
      have missing (policy : LoopPolicy) :
          ofDesign (d.withPolicy policy) = .error cue.target.missing :=
        ofDesign_of_firstUndrawn (d := d.withPolicy policy) check first
      rw [missing policy] at refused
      rw [missing other, refused]

variable {included excluded : Artwork}

/-- Two artworks of one design come of the same scene and the same script. -/
theorem exists_common_stages (made : ofDesign (d.withPolicy .includeTerminal) = .ok included)
    (made' : ofDesign (d.withPolicy .excludeTerminal) = .ok excluded) :
    ∃ scripted drawing drawing', Stages (d.withPolicy .includeTerminal) included scripted drawing ∧
      Stages (d.withPolicy .excludeTerminal) excluded scripted drawing' ∧
      included.scene = excluded.scene := by
  obtain ⟨scripted, drawing, stages⟩ := exists_stages made
  obtain ⟨scripted', drawing', stages'⟩ := exists_stages made'
  have scenes : included.scene = excluded.scene :=
    Except.ok.inj (stages.scene.symm.trans stages'.scene)
  have scripts := stages.script
  rw [scenes] at scripts
  have same : scripted = scripted' := Except.ok.inj (scripts.symm.trans stages'.script)
  subst same
  exact ⟨scripted, drawing, drawing', stages, stages', scenes⟩

/-- The terminal of a script is its last step, and there are two steps for each cue. -/
theorem Stages.ends {a : Artwork} {scripted : Scripted} {drawing : Svg.Element}
    (stages : Stages d a scripted drawing) :
    scripted.terminal = ⟨2 * d.script.length - 1⟩ ∧ scripted.timeline.size = 2 * d.script.length ∧
      scripted.terminal.index + 1 = scripted.timeline.size := by
  have follows := stages.indexed.follows stages.script
  have terminal : scripted.terminal = ⟨2 * d.script.length - 1⟩ := follows.terminal_eq
  have size : scripted.timeline.size = 2 * d.script.length := follows.size_eq
  refine ⟨terminal, size, ?_⟩
  have some_step := Timeline.terminal_lt stages.script
  rw [terminal, size] at some_step ⊢
  exact Nat.succ_pred_eq_of_pos (Nat.zero_lt_of_lt some_step)

/-- Artworks whose timelines agree but for a chained last step in the first one have specs that agree
but for the begin of the last. -/
theorem switched_specs {a a' : Artwork} {n : Nat} {terminal : StepId} {others : List Step} {last : Step}
    {resolved : List AnimateSpec} (scenes : a.scene = a'.scene) (done : a.specs = .ok resolved)
    (steps : a.timeline.steps = others ++ [Loop.chain ⟨terminal, .includeTerminal⟩ last])
    (steps' : a'.timeline.steps = others ++ [last])
    (chained : ∀ r ∈ others, r.begin = .chained r.begin.offset terminal)
    (once : last.begin = .once last.begin.offset) (size : others.length + 1 = n) :
    ∃ (earlier : List AnimateSpec) (spec : AnimateSpec) (step : Step) (t : Float),
      earlier.length + 1 = n ∧ a'.timeline.get? ⟨n - 1⟩ = some step ∧ step.begin = .once t ∧
      a.specs = .ok (earlier ++
        [{ spec with begin := Begin.again terminal (Begin.once t).text }]) ∧
      a'.specs = .ok (earlier ++ [{ spec with begin := (Begin.once t).text }]) ∧
      ∀ (k : Nat) (spec : AnimateSpec), earlier[k]? = some spec → ∃ r,
        a'.timeline.get? ⟨k⟩ = some r ∧
        spec.begin = Begin.again terminal (Begin.once r.begin.offset).text := by
  obtain ⟨earlier, spec, before, all, all'⟩ := Scene.specs_concat done steps steps'
  have place (k : Nat) (r : Step) :
      a'.timeline.get? ⟨k⟩ = some r ↔ others[k]? = some r ∨ (k = others.length ∧ r = last) := by
    rw [Timeline.get?, steps']
    exact getElem?_concat_eq_some_iff
  have number : earlier.length + 1 = n := by
    rw [← before.length_eq]
    exact size
  refine ⟨earlier, spec, last, last.begin.offset, number, ?_, once, ?_, ?_, ?_⟩
  · refine (place _ _).2 (.inr ⟨?_, rfl⟩)
    exact Nat.sub_eq_of_eq_add size.symm
  · rw [← Begin.text_chained]
    exact all
  · rw [← once, Artwork.specs, ← scenes]
    exact all'
  · intro k later found
    obtain ⟨r, here, resolves⟩ := exists_getElem?_of_forall₂ before.flip found
    refine ⟨r, (place k r).2 (.inl here), ?_⟩
    have begins := Scene.begin_of_spec resolves
    rw [chained r (List.mem_of_getElem? here), Begin.text_chained] at begins
    exact begins

theorem switched_of_made (made : ofDesign (d.withPolicy .includeTerminal) = .ok included)
    (made' : ofDesign (d.withPolicy .excludeTerminal) = .ok excluded) :
    Switched d.script included excluded := by
  obtain ⟨scripted, drawing, drawing', stages, stages', scenes⟩ := exists_common_stages made made'
  have sound := Design.validate_eq_ok_iff.1 stages.passed
  obtain ⟨anchored, linear⟩ := Timeline.Linear.ofScript sound.rampIn sound.rampOut stages.script
  obtain ⟨terminal, size, ends⟩ := stages.ends
  obtain ⟨others, last, there, steps, steps', chained⟩ := Loop.exists_bound_steps anchored ends
  have once := linear.once last (List.mem_of_getElem? there)
  have loop : included.loop = ⟨scripted.terminal, .includeTerminal⟩ := stages.loop
  have loop' : excluded.loop = ⟨scripted.terminal, .excludeTerminal⟩ := stages'.loop
  have timeline := stages.timeline
  have timeline' := stages'.timeline
  rw [loop] at timeline
  rw [loop'] at timeline'
  have number : others.length + 1 = 2 * d.script.length := by
    have length := congrArg List.length steps'
    rw [List.length_append] at length
    exact length.symm.trans ((Loop.bound_size _ _).trans size)
  rw [← timeline] at steps
  rw [← timeline'] at steps'
  obtain ⟨specs, resolved, _⟩ := stages.exists_specs
  constructor
  · rw [stages.still, stages'.still, scenes]
  · rw [loop, loop']
    exact ⟨terminal, terminal⟩
  · refine ⟨last.finish, ?_, ?_⟩
    · rw [period, timeline, loop]
      exact Loop.period_bound there
    · rw [period, timeline', loop']
      exact Loop.period_bound there
  · rw [timeline, timeline', Loop.bound_duration, Loop.bound_duration]
  · have switched := switched_specs scenes resolved steps steps' chained once number
    rw [terminal] at switched
    exact switched

end Artwork

/-! ### The policy on the command line -/

namespace CommandLine

open Files

variable {fs fs' : FileSystem} {path path' : String} {d : Design} {policy : LoopPolicy}

/-- A policy that is asked for is as good as one that stands in the file. -/
theorem design_policy (loaded : Design.ofRead path (fs.read path) = .ok d)
    (loaded' : Design.ofRead path' (fs'.read path') = .ok (d.withPolicy policy)) :
    DesignSource.design ⟨some path, some policy⟩ fs = DesignSource.design ⟨some path', none⟩ fs' := by
  dsimp only [DesignSource.design, designAt]
  rw [loaded, loaded']
  rfl

/-- A picture shows nothing of the policy. -/
theorem design_picture (path : Option String) (policy : LoopPolicy) (scale : Float32)
    (fs : FileSystem) :
    (DesignSource.design ⟨path, some policy⟩ fs >>= fun d =>
        (picture d scale).mapError Failure.ofError) =
      DesignSource.design ⟨path, none⟩ fs >>= fun d =>
        (picture d scale).mapError Failure.ofError := by
  dsimp only [DesignSource.design]
  cases designAt path fs <;> rfl

end CommandLine

namespace Artwork

open Files CommandLine

/-- Designs that differ in the policy alone are refused for the same, or have artworks that differ in the
begin of the last step alone. A policy that is asked for on the command line is as good as one in the
file, and makes no difference to a preview. -/
theorem ofDesign_switched (d : Design) :
    ((∃ e, ofDesign (d.withPolicy .includeTerminal) = .error e ∧
        ofDesign (d.withPolicy .excludeTerminal) = .error e) ∨
      ∃ included excluded, ofDesign (d.withPolicy .includeTerminal) = .ok included ∧
        ofDesign (d.withPolicy .excludeTerminal) = .ok excluded ∧
        Switched d.script included excluded) ∧
    (∀ (fs fs' : FileSystem) (path path' : String) (policy : LoopPolicy)
      (arguments arguments' : List String),
      Design.ofRead path (fs.read path) = .ok d →
      Design.ofRead path' (fs'.read path') = .ok (d.withPolicy policy) →
      Request.ofArguments? arguments = some (.timeline ⟨some path, some policy⟩) →
      Request.ofArguments? arguments' = some (.timeline ⟨some path', none⟩) →
      ((run arguments : StateM FileSystem Outcome).run fs).1 =
        ((run arguments' : StateM FileSystem Outcome).run fs').1) ∧
    ∀ (fs : FileSystem) (path : Option String) (policy : LoopPolicy) (out : String) (scale : Float32)
      (arguments arguments' : List String),
      Request.ofArguments? arguments = some (.preview ⟨path, some policy⟩ out scale) →
      Request.ofArguments? arguments' = some (.preview ⟨path, none⟩ out scale) →
      (run arguments : StateM FileSystem Outcome).run fs =
        (run arguments' : StateM FileSystem Outcome).run fs := by
  refine ⟨?_, ?_, ?_⟩
  · cases made : ofDesign (d.withPolicy .includeTerminal) with
    | error e => exact .inl ⟨e, rfl, ofDesign_withPolicy_error made .excludeTerminal⟩
    | ok included =>
        cases made' : ofDesign (d.withPolicy .excludeTerminal) with
        | error e =>
            rw [ofDesign_withPolicy_error made' .includeTerminal] at made
            cases made
        | ok excluded =>
            exact .inr ⟨included, excluded, rfl, rfl, switched_of_made made made'⟩
  · intro fs fs' path path' policy arguments arguments' loaded loaded' parsed parsed'
    rw [run_of_request parsed, run_of_request parsed', run_timeline, run_timeline,
      design_policy loaded loaded']
  · intro fs path policy out scale arguments arguments' parsed parsed'
    rw [run_of_request parsed, run_of_request parsed', run_preview, run_preview, design_picture]

/-- The standard design, once with a policy that is asked for and once with the same one in the file. -/
theorem ofDesign_switched_standard :
    ((run ["timeline", "--config", "logo.json", "--loop-terminal", "exclude"] :
        StateM FileSystem Outcome).run (.plant .empty [] "logo.json" "\x7b\x7d")).1 =
      ((run ["timeline", "--config=loop.json"] : StateM FileSystem Outcome).run
        (.plant .empty [] "loop.json" "\x7b\"loop_terminal\":\"exclude\"\x7d")).1 ∧
    (run ["preview", "--out", "logo.png", "--loop-terminal", "exclude"] :
        StateM FileSystem Outcome).run .empty =
      (run ["preview", "--out=logo.png"] : StateM FileSystem Outcome).run .empty := by
  obtain ⟨_, timeline, preview⟩ := ofDesign_switched .standard
  have read : FileSystem.read (.plant .empty [] "loop.json"
      "\x7b\"loop_terminal\":\"exclude\"\x7d") "loop.json" =
        .ok (Text.encode "\x7b\"loop_terminal\":\"exclude\"\x7d") := by rfl
  have loaded : (Design.ofJson (Text.encode "\x7b\"loop_terminal\":\"exclude\"\x7d")).toOption =
      some (Design.standard.withPolicy .excludeTerminal) := by decide +kernel
  constructor
  · apply timeline _ _ "logo.json" "loop.json" .excludeTerminal
    · rfl
    · rw [read]
      exact toOption_eq_some_iff.1 loaded
    · decide +kernel
    · decide +kernel
  · apply preview _ none .excludeTerminal "logo.png" standardScale
    · decide +kernel
    · decide +kernel

end Artwork

end Emblem
