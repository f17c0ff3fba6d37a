/-
Module: Emblem.Proofs.Independence
Purpose: What is drawn and how it moves depend on different parts of a design. Animations see a scene
  without its geometry, and drawings see no script.
Main exports: Scene.bare, Scene.addAll_bare, Timeline.ofScript_bare, Design.DrawnAlike,
  Design.AnimatedAlike, CommandLine.previewText, Artwork.ofDesign_separates
-/
import Emblem.CommandLine.Run
import Emblem.Files.FileSystem
import Emblem.Proofs.Refusals
import Emblem.Proofs.SceneContents

namespace Emblem

/-! ### Scenes without their geometry -/

def Node.bare (n : Node) : Node :=
  { n with center := default, radius := 0 }

def Edge.bare (e : Edge) : Edge :=
  { e with sourcePoint := default, targetPoint := default, width := 0 }

/-- An addition without its geometry. -/
def Addition.bare : Addition → Addition
  | .node key _ _ fill => .node key default 0 fill
  | .edge key source target stroke _ => .edge key source target stroke 0

namespace Scene

/-- A scene without its geometry: handles, keys and colours. -/
def bare (s : Scene) : Scene :=
  { s with
    canvas := ⟨0, 0⟩
    nodes := s.nodes.map Node.bare
    edges := s.edges.map Edge.bare }

variable {s : Scene}

@[simp] theorem bare_empty (canvas : Canvas) : (empty canvas).bare = empty ⟨0, 0⟩ := rfl

/-- The ends of edges are found by key, wherever the nodes stand. -/
theorem findEnd_bare (s : Scene) (key : NodeKey) :
    s.bare.findEnd key = (s.findEnd key).map fun stop => (stop.1, default) := by
  unfold findEnd
  simp only [bare]
  cases s.nodeIndex.find? key with
  | none => rfl
  | some id =>
      by_cases inside : id.index < s.nodes.length
      · simp [Except.map, inside, Node.bare]
      · simp [Except.map, inside]
        rfl

/-- An addition does the same with and without the geometry. -/
theorem add_bare (s : Scene) (a : Addition) :
    s.bare.add a.bare = (s.add a).map fun added => (added.1, added.2.bare) := by
  cases a with
  | node key center radius fill =>
      simp only [Addition.bare, add, addNode]
      have sameIndex : s.bare.nodeIndex = s.nodeIndex := rfl
      rw [sameIndex]
      cases s.nodeIndex.find? key with
      | some taken => rfl
      | none => simp [Except.map, bare, pushNode, Node.bare]
  | edge key source target stroke width =>
      simp only [Addition.bare, add, addEdge]
      have sameIndex : s.bare.edgeIndex = s.edgeIndex := rfl
      rw [sameIndex, findEnd_bare, findEnd_bare]
      cases s.edgeIndex.find? key with
      | some taken => rfl
      | none =>
          cases s.findEnd source with
          | error e => rfl
          | ok start =>
              cases s.findEnd target with
              | error e => rfl
              | ok stop =>
                  simp only [Except.map, bind, Except.bind]
                  by_cases loop : start.1 = stop.1
                  · simp [loop]
                  · simp [loop, bare, pushEdge, Edge.bare]

/-- So does a list of additions: it goes as far, and with the same refusal. -/
theorem addAll_bare (s : Scene) (additions : List Addition) :
    s.bare.addAll (additions.map Addition.bare) =
      ((s.addAll additions).1.bare, (s.addAll additions).2) := by
  induction additions generalizing s with
  | nil => rfl
  | cons a rest ih =>
      simp only [List.map_cons, addAll, add_bare]
      cases s.add a with
      | error e => rfl
      | ok added => exact ih added.2

/-! ### What a script and its animations see -/

theorem node_bare (s : Scene) (id : NodeId) : s.bare.node id = (s.node id).map Node.bare := by
  simp only [node, bare, List.getElem?_map]
  cases s.nodes[id.index]? <;> rfl

theorem edge_bare (s : Scene) (id : EdgeId) : s.bare.edge id = (s.edge id).map Edge.bare := by
  simp only [edge, bare, List.getElem?_map]
  cases s.edges[id.index]? <;> rfl

@[simp] theorem resolve_bare (s : Scene) (target : Cue.Target) :
    s.bare.resolve target = s.resolve target := by
  cases target with
  | node key =>
      have sameIndex : s.bare.nodeIndex = s.nodeIndex := rfl
      simp only [resolve, nodeByKey, sameIndex]
      cases s.nodeIndex.find? key with
      | none => rfl
      | some id =>
          simp only [node_bare]
          cases s.node id <;> rfl
  | edge key =>
      have sameIndex : s.bare.edgeIndex = s.edgeIndex := rfl
      simp only [resolve, edgeByKey, sameIndex]
      cases s.edgeIndex.find? key with
      | none => rfl
      | some id =>
          simp only [edge_bare]
          cases s.edge id <;> rfl

@[simp] theorem restingColor_bare (s : Scene) (ref : ElementRef) :
    s.bare.restingColor ref = s.restingColor ref := by
  cases ref with
  | node id =>
      simp only [restingColor, node_bare]
      cases s.node id <;> rfl
  | edge id =>
      simp only [restingColor, edge_bare]
      cases s.edge id <;> rfl

@[simp] theorem elementId_bare (s : Scene) (ref : ElementRef) :
    s.bare.elementId ref = s.elementId ref := by
  cases ref with
  | node id =>
      simp only [elementId, node_bare]
      cases s.node id <;> rfl
  | edge id =>
      simp only [elementId, edge_bare]
      cases s.edge id <;> rfl

@[simp] theorem specs_bare (s : Scene) (t : Timeline) : s.bare.specs t = s.specs t := by
  have each : s.bare.spec = s.spec := by
    funext step
    simp only [spec, elementId_bare]
  rw [specs, specs, each]

end Scene

theorem Timeline.addCues_bare (s : Scene) (last : Option StepId) (t : Timeline) (cues : List Cue) :
    addCues s.bare last t cues = addCues s last t cues := by
  induction cues generalizing last t with
  | nil => rfl
  | cons cue rest ih =>
      simp only [addCues, addCue, Scene.resolve_bare, Scene.restingColor_bare, ih]

/-- A script comes to the same timeline with and without the geometry. -/
@[simp] theorem Timeline.ofScript_bare (s : Scene) (cues : List Cue) (highlight : Color)
    (ramps : Ramps) : ofScript s.bare cues highlight ramps = ofScript s cues highlight ramps := by
  simp only [ofScript, addCues_bare]

/-! ### Designs that agree -/

/-- Two designs agree in all that their drawings at rest depend on. -/
structure Design.DrawnAlike (d e : Design) : Prop where
  canvas : d.canvas = e.canvas
  center : d.center = e.center
  nodeRadius : d.nodeRadius = e.nodeRadius
  ringRadius : d.ringRadius = e.ringRadius
  fanDistance : d.fanDistance = e.fanDistance
  edgeWidth : d.edgeWidth = e.edgeWidth
  ring : d.palette.ring = e.palette.ring
  neutral : d.palette.neutral = e.palette.neutral

/-- Two designs agree in all that their animations depend on. -/
structure Design.AnimatedAlike (d e : Design) : Prop where
  ring : d.palette.ring = e.palette.ring
  neutral : d.palette.neutral = e.palette.neutral
  highlight : d.palette.highlight = e.palette.highlight
  flash : d.flash = e.flash
  loopPolicy : d.loopPolicy = e.loopPolicy
  script : d.script = e.script

/-- The nodes of a design without their geometry are told by the palette alone. -/
theorem placements_bare {layout : RingLayout} {d : Design}
    (colored : d.palette.ring.length ≤ layout.ring.length) :
    (placements layout d).map Addition.bare =
      (d.palette.ring.zipIdx.map fun (fill, i) => .node (.ring i) default 0 fill) ++
        Side.all.map fun side => .node (.fan side) default 0 d.palette.neutral := by
  have fills : (layout.ring.zip d.palette.ring).map Prod.snd = d.palette.ring :=
    List.map_snd_zip colored
  conv => rhs; rw [← fills]
  simp [placements, Addition.bare, List.zipIdx_map, Function.comp_def]

theorem connections_bare (d : Design) (plan : List EdgeKey) :
    (connections d plan).map Addition.bare =
      plan.map fun key => .edge key key.ends.1 key.ends.2 d.palette.neutral 0 := by
  simp [connections, Addition.bare]

namespace Scene

/-- Designs whose drawings at rest depend on the same have the same scene. -/
theorem ofDesign_eq_of_drawnAlike {d e : Design} (alike : d.DrawnAlike e) {s t : Scene}
    (made : ofDesign d = .ok s) (made' : ofDesign e = .ok t) : s = t := by
  obtain ⟨_, standing, placed, joined⟩ := ofDesign_eq_ok_iff.1 made
  obtain ⟨_, standing', placed', joined'⟩ := ofDesign_eq_ok_iff.1 made'
  have layout : d.layout = e.layout := by
    simp only [Design.layout, alike.center, alike.ringRadius, alike.fanDistance]
  have nodes : placements d.layout d = placements e.layout e := by
    simp only [placements, layout, alike.ring, alike.neutral, alike.nodeRadius]
  have edges : connections d edgePlan = connections e edgePlan := by
    simp only [connections, alike.neutral, alike.edgeWidth]
  rw [nodes, alike.canvas, placed'] at placed
  cases placed
  rw [edges, joined'] at joined
  cases joined
  rfl

/-- Designs whose palettes have the same colours at rest have the same scene but for the geometry. -/
theorem bare_ofDesign {d e : Design} (ring : d.palette.ring = e.palette.ring)
    (neutral : d.palette.neutral = e.palette.neutral) {s t : Scene}
    (made : ofDesign d = .ok s) (made' : ofDesign e = .ok t) : s.bare = t.bare := by
  obtain ⟨passed, standing, placed, joined⟩ := ofDesign_eq_ok_iff.1 made
  obtain ⟨passed', standing', placed', joined'⟩ := ofDesign_eq_ok_iff.1 made'
  have colored : d.palette.ring.length ≤ d.layout.ring.length :=
    Nat.le_of_eq (Design.validate_eq_ok_iff.1 passed).palette
  have colored' : e.palette.ring.length ≤ e.layout.ring.length :=
    Nat.le_of_eq (Design.validate_eq_ok_iff.1 passed').palette
  have nodes : (placements d.layout d).map Addition.bare =
      (placements e.layout e).map Addition.bare := by
    rw [placements_bare colored, placements_bare colored', ring, neutral]
  have edges : (connections d edgePlan).map Addition.bare =
      (connections e edgePlan).map Addition.bare := by
    rw [connections_bare, connections_bare, neutral]
  have bare := addAll_bare (empty d.canvas) (placements d.layout d)
  have bare' := addAll_bare (empty e.canvas) (placements e.layout e)
  rw [placed, nodes, bare_empty] at bare
  rw [placed', bare_empty, bare] at bare'
  have standings : standing.bare = standing'.bare := congrArg Prod.fst bare'
  have full := addAll_bare standing (connections d edgePlan)
  have full' := addAll_bare standing' (connections e edgePlan)
  rw [joined, edges, standings] at full
  rw [joined', full] at full'
  exact congrArg Prod.fst full'

end Scene

/-! ### Previews -/

namespace CommandLine

/-- The text of the drawing that a preview is a picture of. -/
def previewText (d : Design) : Except Error String := do
  let scene ← Scene.ofDesign d
  return (Svg.ofScene scene).text

variable {m : Type → Type} [Monad m] [Files.Storage m]

/-- Writes a picture of the drawing with a text. -/
def writeRaster (text out : String) (scale : Float32) : Action m Printed := do
  let p ← ofExcept (rasterize text scale)
  match Files.parent? out with
  | some directory =>
    if !directory.isEmpty then ofWork (makeTarget directory)
  | none => pure ()
  ofWork (writePicture out p)
  return ⟨"", wroteLine out⟩

/-- A preview is the picture of this text. -/
theorem writePreview_eq [LawfulMonad m] (source : DesignSource) (out : String) (scale : Float32) :
    (writePreview source out scale : Action m Printed) =
      loadDesign source >>= fun d => CommandLine.ofExcept (previewText d) >>= fun text =>
        writeRaster text out scale := by
  unfold writePreview
  congr 1
  funext d
  cases made : Scene.ofDesign d with
  | error e => simp [previewText, made, ofExcept]
  | ok s =>
      have text : previewText d = .ok (Svg.ofScene s).text := by
        rw [previewText, made]
        rfl
      rw [text]
      simp only [ofExcept, pure_bind]
      rfl

end CommandLine

namespace Artwork

open CommandLine

/-- An artwork's timeline comes of the scene without its geometry. -/
theorem timeline_eq_of_animatedAlike {d₁ d₂ : Design} {a₁ a₂ : Artwork}
    (made₁ : ofDesign d₁ = .ok a₁) (made₂ : ofDesign d₂ = .ok a₂) (alike : d₁.AnimatedAlike d₂) :
    a₁.scene.bare = a₂.scene.bare ∧ a₁.timeline = a₂.timeline ∧ a₁.loop = a₂.loop := by
  obtain ⟨scripted₁, drawing₁, stages₁⟩ := exists_stages made₁
  obtain ⟨scripted₂, drawing₂, stages₂⟩ := exists_stages made₂
  have scenes := Scene.bare_ofDesign alike.ring alike.neutral stages₁.scene stages₂.scene
  have scripts := stages₁.script
  rw [← Timeline.ofScript_bare, scenes, alike.script, alike.highlight, alike.flash,
    Timeline.ofScript_bare, stages₂.script] at scripts
  cases scripts
  have loops : a₁.loop = a₂.loop := by rw [stages₁.loop, stages₂.loop, alike.loopPolicy]
  exact ⟨scenes, by rw [stages₁.timeline, stages₂.timeline, loops], loops⟩

/-- Designs that agree in what is drawn have the same drawing at rest, whatever their scripts are.
Designs that agree in the colours and in what moves have the same animations, with the same period,
wherever their nodes stand. A preview shows the drawing at rest. -/
theorem ofDesign_separates {m : Type → Type} [Monad m] [LawfulMonad m] [Files.Storage m]
    {d₁ d₂ : Design} {a₁ a₂ : Artwork} (made₁ : ofDesign d₁ = .ok a₁)
    (made₂ : ofDesign d₂ = .ok a₂) :
    (d₁.DrawnAlike d₂ → a₁.still = a₂.still) ∧
    (d₁.AnimatedAlike d₂ →
      (∃ specs, a₁.specs = .ok specs ∧ a₂.specs = .ok specs) ∧
      (∃ p, a₁.period = .ok p ∧ a₂.period = .ok p) ∧
      a₁.loop.terminal = a₂.loop.terminal ∧ a₁.timeline.duration = a₂.timeline.duration) ∧
    previewText d₁ = .ok a₁.still ∧
    ∀ source out scale, (writePreview source out scale : Action m Printed) =
      loadDesign source >>= fun d => CommandLine.ofExcept (previewText d) >>= fun text =>
        writeRaster text out scale := by
  obtain ⟨scripted, drawing, stages₁⟩ := exists_stages made₁
  obtain ⟨_, _, stages₂⟩ := exists_stages made₂
  refine ⟨?_, ?_, ?_, writePreview_eq⟩
  · intro alike
    have scenes := Scene.ofDesign_eq_of_drawnAlike alike stages₁.scene stages₂.scene
    rw [stages₁.still, stages₂.still, scenes]
  · intro alike
    obtain ⟨scenes, timelines, loops⟩ := timeline_eq_of_animatedAlike made₁ made₂ alike
    obtain ⟨specs, resolved, _⟩ := stages₁.exists_specs
    have terminal := Timeline.terminal_lt stages₁.script
    rw [← Loop.bound_size a₁.loop, ← stages₁.timeline] at terminal
    have inside : a₁.loop.terminal.index < a₁.timeline.size := by
      rw [stages₁.loop]
      exact terminal
    obtain ⟨p, period⟩ := Loop.exists_period inside
    refine ⟨⟨specs, resolved, ?_⟩, ⟨p, period, ?_⟩, by rw [loops], by rw [timelines]⟩
    · rw [Artwork.specs, ← Scene.specs_bare, ← scenes, ← timelines, Scene.specs_bare]
      exact resolved
    · rw [Artwork.period, ← loops, ← timelines]
      exact period
  · rw [previewText, stages₁.scene, stages₁.still]
    rfl

/-- The standard design, beside one with another script and another design of its size. -/
theorem ofDesign_separates_standard : ∃ a₁ a₂ a₃, ofDesign .standard = .ok a₁ ∧
    ofDesign { Design.standard with script := [⟨.node (.ring 0), 1⟩], loopPolicy := .excludeTerminal } =
      .ok a₂ ∧
    ofDesign { Design.standard with canvas := ⟨500, 400⟩, center := ⟨250, 200⟩, ringRadius := 99.5 } =
      .ok a₃ ∧
    a₁.still = a₂.still ∧ (∃ specs, a₁.specs = .ok specs ∧ a₃.specs = .ok specs) ∧
    previewText .standard = .ok a₁.still := by
  have passed : Design.standard.validate = .ok () := rfl
  have drawn : ∀ cue ∈ Design.standard.script, cue.target.Drawn := by decide
  obtain ⟨a₁, made₁⟩ := exists_ofDesign_of_drawn passed drawn
  obtain ⟨a₂, made₂⟩ : ∃ a, ofDesign { Design.standard with
      script := [⟨.node (.ring 0), 1⟩], loopPolicy := .excludeTerminal } = .ok a :=
    exists_ofDesign_of_drawn rfl (by decide)
  obtain ⟨a₃, made₃⟩ : ∃ a, ofDesign { Design.standard with
      canvas := ⟨500, 400⟩, center := ⟨250, 200⟩, ringRadius := 99.5 } = .ok a :=
    exists_ofDesign_of_drawn rfl drawn
  have stills := ofDesign_separates (m := StateM Files.FileSystem) made₁ made₂
  have animations := ofDesign_separates (m := StateM Files.FileSystem) made₁ made₃
  exact ⟨a₁, a₂, a₃, made₁, made₂, made₃,
    stills.1 ⟨rfl, rfl, rfl, rfl, rfl, rfl, rfl, rfl⟩,
    (animations.2.1 ⟨rfl, rfl, rfl, rfl, rfl, rfl⟩).1, stills.2.2.1⟩

end Artwork

end Emblem
