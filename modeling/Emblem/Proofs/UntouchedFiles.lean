/-
Module: Emblem.Proofs.UntouchedFiles
Purpose: Commands that fail before they have anything to write leave the file system as it was, and so does
  printing a timeline, whatever comes of it.
Main exports: CommandLine.Request.source?, CommandLine.Request.prepare, CommandLine.Stops,
  CommandLine.run_untouched
-/
import Emblem.Proofs.CommandRuns
import Emblem.Proofs.ScriptOutcome

namespace Emblem.CommandLine

open Files

namespace Request

/-- The source of the design that a request works on. -/
def source? : Request → Option DesignSource
  | generate source .. | preview source .. | timeline source => some source
  | help | version => none

/-- What a request does before it writes: it loads its design, and works out what is to be written or
printed. -/
def prepare (fs : FileSystem) : Request → Except Failure Unit
  | generate source .. =>
      (source.design fs >>= fun d => (Artwork.ofDesign d).mapError Failure.ofError).map fun _ => ()
  | preview source _ scale =>
      (source.design fs >>= fun d => (picture d scale).mapError Failure.ofError).map fun _ => ()
  | timeline source =>
      (source.design fs >>= fun d => (animations d).mapError Failure.ofError).map fun _ => ()
  | help | version => .ok ()

end Request

/-- What stops a request before it writes. -/
inductive Stops (fs : FileSystem) : Request → Prop where
  /-- The file of the design cannot be opened or read, or is no document of a design. -/
  | unloaded {r : Request} {source : DesignSource} {path : String} {e : Error}
      (of : r.source? = some source) (file : source.path = some path)
      (unread : Design.ofRead path (fs.read path) = .error e) : Stops fs r
  | invalid {r : Request} {source : DesignSource} {d : Design} {e : Error}
      (of : r.source? = some source) (loaded : source.design fs = .ok d)
      (refused : d.validate = .error e) : Stops fs r
  /-- Some cue finds no element of the scene. -/
  | unresolved {source : DesignSource} {directory : String} {names : FileNames} {d : Design}
      {s : Scene} {cue : Cue} {e : Error} (loaded : source.design fs = .ok d)
      (built : Scene.ofDesign d = .ok s) (member : cue ∈ d.script)
      (missing : s.resolve cue.target = .error e) : Stops fs (.generate source directory names)
  /-- The scale is no scale, or the picture would be too large. -/
  | unpictured {source : DesignSource} {out : String} {scale : Float32} {d : Design} {s : Scene}
      {e : Error} (loaded : source.design fs = .ok d) (built : Scene.ofDesign d = .ok s)
      (refused : rasterize (Svg.ofScene s).text scale = .error e) :
      Stops fs (.preview source out scale)

section Requests

variable {fs : FileSystem} {r : Request} {source : DesignSource} {d : Design}

/-- Nothing is written before the preparation is done. -/
theorem run_of_prepare_error {failure : Failure} (failed : r.prepare fs = .error failure) :
    (r.run : StateM FileSystem Outcome).run fs = (Outcome.ofResult (.error failure), fs) := by
  cases r with
  | generate source directory names => rw [run_generate, map_eq_error_iff.1 failed]
  | preview source out scale => rw [run_preview, map_eq_error_iff.1 failed]
  | timeline source => rw [run_timeline, map_eq_error_iff.1 failed]
  | help | version => cases failed

/-- A request that fails to load its design fails so. -/
theorem prepare_of_unloaded {failure : Failure} (of : r.source? = some source)
    (failed : source.design fs = .error failure) : r.prepare fs = .error failure := by
  cases r with
  | generate | preview | timeline =>
      cases of
      rw [Request.prepare, failed]
      rfl
  | help | version => cases of

/-- A preparation fails if what is to be worked out of the loaded design cannot be. -/
theorem prepare_of_refused {α : Type} {work : Design → Except Error α} {e : Error}
    (loaded : source.design fs = .ok d) (refused : work d = .error e) :
    ((source.design fs >>= fun d => (work d).mapError Failure.ofError).map fun _ => ()) =
      .error (.ofError e) := by
  rw [loaded]
  change ((work d).mapError Failure.ofError).map _ = _
  rw [refused]
  rfl

/-- Whatever a request works out, it is refused for a design that does not pass the check. -/
theorem prepare_of_invalid {e : Error} (of : r.source? = some source)
    (loaded : source.design fs = .ok d) (refused : d.validate = .error e) :
    r.prepare fs = .error (.ofError e) := by
  have noScene : Scene.ofDesign d = .error e := check_bind_eq_error_iff.2 (.inl refused)
  have noArtwork : Artwork.ofDesign d = .error e := Artwork.ofDesign_of_invalid refused
  cases r with
  | generate source directory names =>
      cases of
      exact prepare_of_refused loaded noArtwork
  | preview source out scale =>
      cases of
      have noText : previewText d = .error e := bind_eq_error_iff.2 (.inl noScene)
      exact prepare_of_refused loaded (bind_eq_error_iff.2 (.inl noText))
  | timeline source =>
      cases of
      exact prepare_of_refused loaded (bind_eq_error_iff.2 (.inl noArtwork))
  | help | version => cases of

/-- A cue that finds nothing keeps a design from having an artwork. -/
theorem exists_ofDesign_error {s : Scene} {cue : Cue} {e : Error} (built : Scene.ofDesign d = .ok s)
    (member : cue ∈ d.script) (missing : s.resolve cue.target = .error e) :
    ∃ e, Artwork.ofDesign d = .error e := by
  cases made : Artwork.ofDesign d with
  | error e => exact ⟨e, rfl⟩
  | ok a =>
      obtain ⟨scripted, drawing, stages⟩ := Artwork.exists_stages made
      have same : a.scene = s := Except.ok.inj (stages.scene.symm.trans built)
      have plays := (stages.indexed.exists_flashes stages.script).1 cue member
      obtain ⟨ref, _, _, found, _⟩ := stages.indexed.exists_resolve (Scene.exists_prompts_iff.1 plays.1)
      rw [same, missing] at found
      cases found

/-- What stops a request stops its preparation. -/
theorem Stops.exists_prepare_error (stops : Stops fs r) :
    ∃ failure, r.prepare fs = .error failure := by
  cases stops with
  | @unloaded _ source path e of file unread =>
      have failed : source.design fs = .error (.ofLoading path e) := by
        simp only [DesignSource.design, designAt, file, unread]
        rfl
      exact ⟨_, prepare_of_unloaded of failed⟩
  | invalid of loaded refused => exact ⟨_, prepare_of_invalid of loaded refused⟩
  | unresolved loaded built member missing =>
      obtain ⟨e, refused⟩ := exists_ofDesign_error built member missing
      exact ⟨_, prepare_of_refused loaded refused⟩
  | @unpictured source out scale d s e loaded built refused =>
      have text : previewText d = .ok (Svg.ofScene s).text := bind_eq_ok_iff.2 ⟨s, built, rfl⟩
      have noPicture : picture d scale = .error e := bind_eq_error_iff.2 (.inr ⟨_, text, refused⟩)
      exact ⟨_, prepare_of_refused loaded noPicture⟩

end Requests

/-- Arguments whose request is stopped before it writes end with a failure and leave the file system as
it was. A timeline leaves it so whatever happens. -/
theorem run_untouched (fs : FileSystem) (arguments : List String) (r : Request)
    (parsed : Request.ofArguments? arguments = some r) :
    (Stops fs r → ∃ failure, (run arguments : StateM FileSystem Outcome).run fs =
      (Outcome.ofResult (.error failure), fs)) ∧
    ∀ source, r = .timeline source →
      ((run arguments : StateM FileSystem Outcome).run fs).2 = fs := by
  rw [run_of_request parsed]
  constructor
  · intro stops
    obtain ⟨failure, failed⟩ := stops.exists_prepare_error
    exact ⟨failure, run_of_prepare_error failed⟩
  · rintro source rfl
    rw [run_timeline]

/-- The standard design with a cue at a node that is not there. -/
def strayCue : Design :=
  { Design.standard with script := [⟨.node (.ring 9), 0⟩] }

/-- The document of this design, at a path. -/
def strayCueFiles : FileSystem :=
  .plant .empty [] "logo.json"
    "\x7b\"script\":[\x7b\"target\":\x7b\"node\":\x7b\"ring\":9\x7d\x7d,\"start\":0\x7d]\x7d"

theorem strayCue_loaded :
    DesignSource.design ⟨some "logo.json", none⟩ strayCueFiles = .ok strayCue := by
  have loaded : (Design.ofRead "logo.json" (strayCueFiles.read "logo.json")).toOption =
      some strayCue := by decide +kernel
  simp only [DesignSource.design, designAt, toOption_eq_some_iff.1 loaded]
  rfl

/-- A file that is not there, a cue that names nothing, and a picture that is to be scaled to nothing. -/
theorem run_untouched_stopped :
    (∃ failure, (run ["generate", "--config", "lost.json", "--out-dir", "drawings"] :
        StateM FileSystem Outcome).run .empty = (Outcome.ofResult (.error failure), .empty)) ∧
    (∃ failure, (run ["generate", "--config", "logo.json"] :
        StateM FileSystem Outcome).run strayCueFiles =
          (Outcome.ofResult (.error failure), strayCueFiles)) ∧
    ∃ failure, (run ["preview", "--out", "pictures/logo.png", "--scale", "0"] :
        StateM FileSystem Outcome).run .empty = (Outcome.ofResult (.error failure), .empty) := by
  refine ⟨?_, ?_, ?_⟩
  · refine (run_untouched .empty _ (.generate ⟨some "lost.json", none⟩ "drawings" .standard) ?_).1 ?_
    · decide +kernel
    · exact .unloaded rfl rfl rfl
  · have passed : strayCue.validate = .ok () := rfl
    obtain ⟨s, built, indexed, nodes, edges⟩ := Scene.exists_ofDesign passed
    have absent : ¬s.Shows (.node (.ring 9)) := by
      rw [Scene.shows_iff_drawn nodes edges]
      decide
    refine (run_untouched strayCueFiles _ (.generate ⟨some "logo.json", none⟩ "." .standard) ?_).1 ?_
    · decide +kernel
    · exact .unresolved strayCue_loaded built List.mem_cons_self
        (indexed.resolve_of_not_shows absent)
  · have passed : Design.standard.validate = .ok () := rfl
    obtain ⟨s, built, _⟩ := Scene.exists_ofDesign passed
    have refused : ∃ e, rasterize (Svg.ofScene s).text 0 = .error e := by
      rw [rasterize]
      cases Drawing.ofText (Svg.ofScene s).text with
      | error e => exact ⟨e, rfl⟩
      | ok drawing => exact ⟨.badScale 0, rfl⟩
    obtain ⟨e, refused⟩ := refused
    refine (run_untouched .empty _ (.preview ⟨none, none⟩ "pictures/logo.png" 0) ?_).1 ?_
    · decide +kernel
    · exact .unpictured rfl built refused

end Emblem.CommandLine
