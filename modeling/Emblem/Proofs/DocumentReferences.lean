/-
Module: Emblem.Proofs.DocumentReferences
Purpose: The references of an animated drawing. Its ids are distinct, every animation names the
  shape of its step and no other element, and every step that a begin time mentions is there.
Main exports: Svg.Element.family, Svg.Element.ids, Svg.Element.named, Scene.shape, Svg.Refers,
  Svg.animated_refers
-/
import Emblem.Proofs.ElementIds
import Emblem.Proofs.TimelineRun
import Emblem.Svg.Drawing

namespace Emblem

/-- Where partial names are distinct, each is that of one member. -/
theorem filter_eq_singleton {α β : Type} [DecidableEq β] {f : α → Option β} {xs : List α} {a : α}
    {b : β} (distinct : (xs.filterMap f).Nodup) (member : a ∈ xs) (called : f a = some b) :
    (xs.filter fun x => f x = some b) = [a] := by
  induction xs with
  | nil => cases member
  | cons c rest ih =>
      cases other : f c with
      | none =>
          rw [List.filterMap_cons_none other] at distinct
          rcases List.mem_cons.1 member with rfl | later
          · rw [called] at other
            cases other
          · rw [List.filter_cons_of_neg (by simp [other])]
            exact ih distinct later
      | some y =>
          rw [List.filterMap_cons_some other, List.nodup_cons] at distinct
          have newName : ∀ x ∈ rest, f x ≠ some y := by
            intro x later same
            exact distinct.1 (List.mem_filterMap.2 ⟨x, later, same⟩)
          rcases List.mem_cons.1 member with rfl | later
          · rw [called] at other
            cases other
            have noOther : (rest.filter fun x => f x = some b) = [] := by
              rw [List.filter_eq_nil_iff]
              intro x later
              simpa using newName x later
            rw [List.filter_cons_of_pos (by simp [called]), noOther]
          · have apart : y ≠ b := by
              intro same
              exact newName a later (by rw [called, same])
            rw [List.filter_cons_of_neg (by simpa [other] using apart)]
            exact ih distinct.2 later

namespace Svg.Element

mutual

/-- An element and all that it contains, in the order of the text. -/
def family : Element → List Element
  | .mk name attributes children => .mk name attributes children :: families children

/-- The same of each element of a list. -/
def families : List Element → List Element
  | [] => []
  | child :: rest => family child ++ families rest

end

/-- All ids in a drawing. -/
def ids (doc : Element) : List String :=
  doc.family.filterMap (·.attribute? "id")

/-- The elements with an id. -/
def named (doc : Element) (id : String) : List Element :=
  doc.family.filter fun e => e.attribute? "id" = some id

/-- The elements of animations. -/
def animations (doc : Element) : List Element :=
  doc.family.filter fun e => e.name = "animate"

theorem family_of_leaf {e : Element} (leaf : e.children = []) : e.family = [e] := by
  cases e with
  | mk name attributes children =>
      cases leaf
      simp [family, families]

theorem families_of_leaves {es : List Element} (leaves : ∀ e ∈ es, e.children = []) :
    families es = es := by
  induction es with
  | nil => simp [families]
  | cons e rest ih =>
      have here := family_of_leaf (leaves e List.mem_cons_self)
      have later := ih fun a member => leaves a (List.mem_cons_of_mem e member)
      rw [families, here, later]
      rfl

/-- Where ids are distinct, an id names one element. -/
theorem named_eq_singleton {doc e : Element} {id : String} (distinct : doc.ids.Nodup)
    (member : e ∈ doc.family) (called : e.attribute? "id" = some id) : doc.named id = [e] :=
  filter_eq_singleton distinct member called

end Svg.Element

/-- The shape that a reference points at: the circle of a node, the line of an edge. -/
def Scene.shape (s : Scene) : ElementRef → Except Error Svg.Element
  | .node id => (s.node id).map Svg.circle
  | .edge id => (s.edge id).map Svg.line

namespace Svg

open Element

/-- An animation of a drawing is that of a step: it has the id of the step, and refers to an id
that the shape of the step's target has and no other element. -/
def Follows (s : Scene) (doc animation : Element) (step : Step) : Prop :=
  animation.attribute? "id" = some step.id.elementId ∧
    ∃ id shape, animation.attribute? "xlink:href" = some ("#" ++ id) ∧
      s.shape step.target = .ok shape ∧ doc.named id = [shape]

/-- The references of a drawing are right. -/
structure Refers (s : Scene) (t : Timeline) (doc : Element) : Prop where
  ids_nodup : doc.ids.Nodup
  /-- The animations are those of the steps, in order. -/
  animations : List.Forall₂ (Follows s doc) doc.animations t.steps
  /-- Wherever the end of a step is mentioned, one element has the id, and it is an animation. -/
  mentions : ∀ e ∈ doc.family, ∀ times, e.attribute? "begin" = some times →
    ∀ before word after, times = before ++ "anim-" ++ word ++ ".end" ++ after →
      ∃ animation, doc.named ("anim-" ++ word) = [animation] ∧ animation.name = "animate"

section Attributes

variable (e : Edge) (n : Node) (spec : AnimateSpec)

@[simp] theorem line_id : (line e).attribute? "id" = some e.key.elementId := rfl

@[simp] theorem circle_id : (circle n).attribute? "id" = some n.key.elementId := rfl

@[simp] theorem animate_id : (animate spec).attribute? "id" = some spec.id := rfl

@[simp] theorem line_begin : (line e).attribute? "begin" = none := rfl

@[simp] theorem circle_begin : (circle n).attribute? "begin" = none := rfl

@[simp] theorem animate_begin : (animate spec).attribute? "begin" = some spec.begin := rfl

@[simp] theorem line_name : (line e).name = "line" := rfl

@[simp] theorem circle_name : (circle n).name = "circle" := rfl

@[simp] theorem animate_name : (animate spec).name = "animate" := rfl

end Attributes

variable {s : Scene} {t : Timeline} {doc : Element}

/-- The shapes of a drawing: its lines, and then its circles. -/
def shapes (s : Scene) : List Element :=
  s.edges.map line ++ s.nodes.map circle

/-- What a drawing is made of: the root contains the shapes and then an animation for each step. -/
structure Parts (s : Scene) (t : Timeline) (doc : Element) (specs : List AnimateSpec) : Prop where
  resolved : List.Forall₂ (fun step spec => s.spec step = .ok spec) t.steps specs
  root_id : doc.attribute? "id" = none
  root_begin : doc.attribute? "begin" = none
  root_name : doc.name = "svg"
  family : doc.family = doc :: (shapes s ++ specs.map animate)

theorem exists_parts (drawn : animated s t = .ok doc) : ∃ specs, Parts s t doc specs := by
  obtain ⟨specs, resolved, made⟩ := bind_eq_ok_iff.1 drawn
  have whole : doc = root s.canvas (shapes s ++ specs.map animate) := by
    cases made
    rfl
  have leaves : ∀ e ∈ shapes s ++ specs.map animate, e.children = [] := by
    intro e member
    simp only [shapes, List.mem_append, List.mem_map] at member
    rcases member with (⟨_, _, rfl⟩ | ⟨_, _, rfl⟩) | ⟨_, _, rfl⟩
    · rfl
    · rfl
    · rfl
  rw [whole]
  refine ⟨specs, mapM_eq_ok_iff.1 resolved, rfl, rfl, rfl, ?_⟩
  simp only [root, Element.family, families_of_leaves leaves]

theorem spec_eq_ok {step : Step} {spec : AnimateSpec} (resolved : s.spec step = .ok spec) :
    spec.id = step.id.elementId ∧ spec.begin = step.begin.text ∧
      s.elementId step.target = .ok spec.target := by
  obtain ⟨id, found, made⟩ := bind_eq_ok_iff.1 resolved
  cases made
  exact ⟨rfl, rfl, found⟩

theorem ids_of_specs {steps : List Step} {specs : List AnimateSpec}
    (resolved : List.Forall₂ (fun step spec => s.spec step = .ok spec) steps specs) :
    specs.map (·.id) = (steps.map (·.id)).map StepId.elementId := by
  induction resolved with
  | nil => rfl
  | cons here _ ih => simp [ih, (spec_eq_ok here).1]

/-- A target that has an id has a shape, which is drawn and has this id. -/
theorem exists_shape {target : ElementRef} {id : String} (found : s.elementId target = .ok id) :
    ∃ shape ∈ shapes s, s.shape target = .ok shape ∧ shape.attribute? "id" = some id := by
  cases target with
  | node handle =>
      obtain ⟨n, there, rfl⟩ := map_eq_ok_iff.1 found
      have member := List.mem_of_getElem? (Scene.Indexed.node_eq_ok_iff.1 there)
      refine ⟨circle n, ?_, map_eq_ok_iff.2 ⟨n, there, rfl⟩, rfl⟩
      exact List.mem_append_right _ (List.mem_map_of_mem member)
  | edge handle =>
      obtain ⟨e, there, rfl⟩ := map_eq_ok_iff.1 found
      have member := List.mem_of_getElem? (Scene.Indexed.edge_eq_ok_iff.1 there)
      refine ⟨line e, ?_, map_eq_ok_iff.2 ⟨e, there, rfl⟩, rfl⟩
      exact List.mem_append_left _ (List.mem_map_of_mem member)

namespace Parts

variable {specs : List AnimateSpec} (parts : Parts s t doc specs)

include parts

/-- The ids of a drawing are those of its edges, its nodes and its steps. -/
theorem ids_eq :
    doc.ids = s.edgeKeys.map EdgeKey.elementId ++ s.nodeKeys.map NodeKey.elementId ++
      (t.steps.map (·.id)).map StepId.elementId := by
  rw [← ids_of_specs parts.resolved, ids, parts.family]
  simp [parts.root_id, shapes, Scene.edgeKeys, Scene.nodeKeys, List.filterMap_map,
    Function.comp_def]

theorem ids_nodup (indexed : s.Indexed) (anchored : t.Anchored) : doc.ids.Nodup := by
  rw [parts.ids_eq]
  exact elementIds_nodup (indexed.edgeIndex.nodup EdgeId.mk_injective)
    (indexed.nodeIndex.nodup NodeId.mk_injective) anchored.ids_nodup

theorem animations_eq : doc.animations = specs.map animate := by
  rw [animations, parts.family]
  simp [parts.root_name, shapes, List.filter_map, Function.comp_def]

theorem shape_mem {e : Element} (member : e ∈ shapes s) : e ∈ doc.family := by
  rw [parts.family]
  exact List.mem_cons_of_mem _ (List.mem_append_left _ member)

theorem animate_mem {spec : AnimateSpec} (member : spec ∈ specs) :
    animate spec ∈ doc.family := by
  rw [parts.family]
  exact List.mem_cons_of_mem _ (List.mem_append_right _ (List.mem_map_of_mem member))

theorem follows (distinct : doc.ids.Nodup) {step : Step} {spec : AnimateSpec}
    (resolved : s.spec step = .ok spec) : Follows s doc (animate spec) step := by
  obtain ⟨sameId, _, found⟩ := spec_eq_ok resolved
  obtain ⟨shape, member, pointed, called⟩ := exists_shape found
  refine ⟨by rw [animate_id, sameId], spec.target, shape, rfl, pointed, ?_⟩
  exact named_eq_singleton distinct (parts.shape_mem member) called

/-- Only the animations have begin times. -/
theorem exists_step_of_begin {e : Element} (member : e ∈ doc.family) {times : String}
    (begins : e.attribute? "begin" = some times) :
    ∃ step ∈ t.steps, times = step.begin.text := by
  rw [parts.family] at member
  simp only [shapes, List.mem_cons, List.mem_append, List.mem_map] at member
  rcases member with rfl | (⟨edge, _, rfl⟩ | ⟨node, _, rfl⟩) | ⟨spec, listed, rfl⟩
  · rw [parts.root_begin] at begins
    cases begins
  · simp at begins
  · simp at begins
  · obtain ⟨step, member, resolved⟩ := exists_of_mem_right parts.resolved listed
    rw [animate_begin, (spec_eq_ok resolved).2.1] at begins
    exact ⟨step, member, (Option.some.inj begins).symm⟩

/-- The animation of a step is the one element with its id. -/
theorem named_step (distinct : doc.ids.Nodup) {step : Step} (member : step ∈ t.steps) :
    ∃ animation, doc.named step.id.elementId = [animation] ∧ animation.name = "animate" := by
  obtain ⟨spec, listed, resolved⟩ := exists_of_mem_left parts.resolved member
  refine ⟨animate spec, ?_, rfl⟩
  apply named_eq_singleton distinct (parts.animate_mem listed)
  rw [animate_id, (spec_eq_ok resolved).1]

end Parts

/-- Every drawing of a scene that was built by additions, with a timeline that was built by flashes
and bindings, has its references right. -/
theorem animated_refers {canvas : Canvas} {highlight : Color} {ramps : Ramps}
    {calls : List Scene.Call} {acts : List Timeline.Act} {doc : Element}
    (drawn : animated ((Scene.empty canvas).run calls)
      ((Timeline.empty highlight ramps).run acts) = .ok doc) :
    Refers ((Scene.empty canvas).run calls) ((Timeline.empty highlight ramps).run acts) doc := by
  have indexed := (Scene.Indexed.empty canvas).run calls
  have anchored := (Timeline.Anchored.empty highlight ramps).run acts
  obtain ⟨specs, parts⟩ := exists_parts drawn
  have distinct := parts.ids_nodup indexed anchored
  refine ⟨distinct, ?_, ?_⟩
  · rw [parts.animations_eq, List.forall₂_map_left_iff]
    exact parts.resolved.flip.imp fun spec step resolved => parts.follows distinct resolved
  · intro e member times begins before word after mention
    obtain ⟨step, listed, rfl⟩ := parts.exists_step_of_begin member begins
    obtain ⟨anchor, chained, called⟩ := Begin.exists_anchor_of_mention mention
    obtain ⟨other, there, same⟩ := anchored.exists_step
      (anchored.anchor_lt step listed anchor chained)
    rw [called, ← same]
    exact parts.named_step distinct there

/-- Two joined nodes of which the edge flashes in a loop. -/
theorem animated_refers_pair :
    ∃ doc, animated
        ((Scene.empty ⟨10, 10⟩).run
          [.add (.node (.ring 12) ⟨1, 2⟩ 1 ⟨0, 0, 0⟩), .add (.node (.fan .left) ⟨3, 4⟩ 1 ⟨0, 0, 0⟩),
            .add (.edge (.ring 1 2) (.ring 12) (.fan .left) ⟨0, 0, 0⟩ 1)])
        ((Timeline.empty ⟨255, 255, 255⟩ ⟨0.5, 0.5⟩).run
          [.flash (.edge ⟨0⟩) ⟨0, 0, 0⟩ 1 .stroke, .bind ⟨⟨1⟩, .includeTerminal⟩]) = .ok doc ∧
      Refers
        ((Scene.empty ⟨10, 10⟩).run
          [.add (.node (.ring 12) ⟨1, 2⟩ 1 ⟨0, 0, 0⟩), .add (.node (.fan .left) ⟨3, 4⟩ 1 ⟨0, 0, 0⟩),
            .add (.edge (.ring 1 2) (.ring 12) (.fan .left) ⟨0, 0, 0⟩ 1)])
        ((Timeline.empty ⟨255, 255, 255⟩ ⟨0.5, 0.5⟩).run
          [.flash (.edge ⟨0⟩) ⟨0, 0, 0⟩ 1 .stroke, .bind ⟨⟨1⟩, .includeTerminal⟩]) doc := by
  refine ⟨_, rfl, animated_refers rfl⟩

end Svg

end Emblem
