/-
Module: Emblem.Proofs.DrawingLines
Purpose: The two texts of an artwork, line by line. Both have the opening tag, a line for each edge
  and each node and the closing tag; the animated one has a line for each animation in front of the
  closing tag, and nothing else sets them apart.
Main exports: Svg.lines, Svg.unlines, Svg.edgeLine, Svg.nodeLine, Svg.animationLine, Artwork.Lines,
  Artwork.ofDesign_lines
-/
import Emblem.Proofs.AttributeValues
import Emblem.Proofs.Refusals
import Emblem.Proofs.ScriptOutcome

namespace Emblem

namespace Svg

open Element

/-! ### Lines -/

/-- The lines of a text. -/
def lines (text : String) : List String :=
  (text.toList.splitOn '\n').map .ofList

/-- The text with these lines. -/
def unlines (ls : List String) : String :=
  "\n".intercalate ls

theorem toList_unlines (ls : List String) :
    (unlines ls).toList = ['\n'].intercalate (ls.map String.toList) :=
  String.toList_intercalate

theorem lines_unlines {ls : List String} (some_line : ls ≠ [])
    (whole : ∀ l ∈ ls, '\n' ∉ l.toList) : lines (unlines ls) = ls := by
  have split : (unlines ls).toList.splitOn '\n' = ls.map String.toList := by
    rw [toList_unlines]
    apply List.splitOn_intercalate
    · intro cs member
      obtain ⟨l, inside, rfl⟩ := List.mem_map.1 member
      exact whole l inside
    · simpa using some_line
  rw [lines, split, List.map_map]
  have same : String.ofList ∘ String.toList = id := funext fun s => String.ofList_toList
  rw [same, List.map_id]

/-- A piece of a text without a line break lies within one line. -/
theorem exists_line_of_infix {piece : List Char} (some_char : piece ≠ []) (whole : '\n' ∉ piece)
    {ls : List String} (inside : piece <:+: (unlines ls).toList) : ∃ l ∈ ls, piece <:+: l.toList := by
  rw [toList_unlines] at inside
  induction ls with
  | nil => exact absurd (List.infix_nil.1 inside) some_char
  | cons l rest ih =>
      cases rest with
      | nil => exact ⟨l, List.mem_cons_self, by simpa using inside⟩
      | cons next rest =>
          rw [List.map_cons, List.map_cons, List.intercalate_cons_cons, List.append_assoc,
            List.infix_append_iff] at inside
          rcases inside with here | later | ⟨before, after, rfl, here, later⟩
          · exact ⟨l, List.mem_cons_self, here⟩
          · rcases List.infix_cons_iff.1 later with start | later
            · cases piece with
              | nil => exact absurd rfl some_char
              | cons c piece =>
                  rw [(List.cons_prefix_cons.1 start).1] at whole
                  exact absurd List.mem_cons_self whole
            · obtain ⟨found, member, within⟩ := ih later
              exact ⟨found, List.mem_cons_of_mem _ member, within⟩
          · -- The piece ends with the line, as it would have to go on with a break.
            cases after with
            | nil =>
                rw [List.append_nil]
                exact ⟨l, List.mem_cons_self, here.isInfix⟩
            | cons c after =>
                rw [(List.cons_prefix_cons.1 later).1] at whole
                exact absurd (List.mem_append_right before List.mem_cons_self) whole

/-- A line with one opening bracket, at its start. -/
def IsTag (l : String) : Prop :=
  ∃ rest, l.toList = '<' :: rest ∧ '<' ∉ rest ∧ '\n' ∉ rest

theorem IsTag.noBreak {l : String} (tag : IsTag l) : '\n' ∉ l.toList := by
  obtain ⟨rest, shape, _, whole⟩ := tag
  rw [shape]
  simp [whole]

/-- How the element of an animation begins. -/
def animationMark : List Char := "<animate".toList

/-- Whether a line is that of an animation. -/
def isAnimation (l : String) : Bool :=
  animationMark.isPrefixOf l.toList

/-- In lines of tags, animations are at the start of a line. -/
theorem exists_animation_of_infix {ls : List String} (tags : ∀ l ∈ ls, IsTag l)
    (inside : animationMark <:+: (unlines ls).toList) : ∃ l ∈ ls, isAnimation l := by
  obtain ⟨l, member, within⟩ := exists_line_of_infix (by decide) (by decide) inside
  obtain ⟨rest, shape, noTag, _⟩ := tags l member
  refine ⟨l, member, List.isPrefixOf_iff_prefix.2 ?_⟩
  rw [shape] at within ⊢
  rcases List.infix_cons_iff.1 within with start | later
  · exact start
  · exact absurd (later.subset (by decide)) noTag

/-! ### Tags -/

section Tags

theorem mem_insertByName {a b : String × String} {attributes : List (String × String)} :
    a ∈ insertByName b attributes ↔ a = b ∨ a ∈ attributes := by
  induction attributes with
  | nil => simp [insertByName]
  | cons c rest ih =>
      unfold insertByName
      split
      · simp
      · rw [List.mem_cons, ih, List.mem_cons]
        exact or_left_comm

theorem mem_sortByName {a : String × String} {attributes : List (String × String)} :
    a ∈ sortByName attributes ↔ a ∈ attributes := by
  induction attributes with
  | nil => simp [sortByName]
  | cons b rest ih =>
      have step : sortByName (b :: rest) = insertByName b (sortByName rest) := rfl
      rw [step, mem_insertByName, ih, List.mem_cons]

variable {e : Element}

/-- A tag is written with value characters and the marks around values, but for its opening
bracket. -/
theorem Element.Plain.exists_tag (plain : e.Plain) :
    ∃ rest, (tagText e.name e.attributes).toList = '<' :: rest ∧
      ∀ c ∈ rest, isValueChar c ∨ c = '=' ∨ c = '"' := by
  refine ⟨e.name.toList ++ ((sortByName e.attributes).map attributeText).flatMap String.toList,
    ?_, ?_⟩
  · simp [tagText, String.toList_join]
  · intro c member
    rcases List.mem_append.1 member with inName | inAttributes
    · exact .inl (plain.name c inName)
    · obtain ⟨text, written, inside⟩ := List.mem_flatMap.1 inAttributes
      obtain ⟨a, sorted, rfl⟩ := List.mem_map.1 written
      have value := plain.attributes a (mem_sortByName.1 sorted)
      simp only [attributeText, String.toList_append, List.mem_append] at inside
      rcases inside with (((blank | name) | between) | value') | close
      · have marks : IsValue " " := by decide
        exact .inl (marks c blank)
      · exact .inl (value.1 c name)
      · have marks : "=\"".toList = ['=', '"'] := rfl
        rw [marks, List.mem_pair] at between
        exact .inr between
      · exact .inl (value.2 c value')
      · have mark : "\"".toList = ['"'] := rfl
        rw [mark, List.mem_singleton] at close
        exact .inr (.inr close)

/-- However the tag of an element is closed, it is one line with one opening bracket. -/
theorem Element.Plain.isTag (plain : e.Plain) {close : String}
    (closes : '<' ∉ close.toList ∧ '\n' ∉ close.toList) :
    IsTag (tagText e.name e.attributes ++ close) := by
  obtain ⟨rest, shape, chars⟩ := plain.exists_tag
  have other : ∀ c ∈ rest, c ≠ '<' ∧ c ≠ '\n' := by
    intro c member
    constructor
    · rintro rfl
      rcases chars '<' member with value | equals | quote
      · cases value
      · cases equals
      · cases quote
    · rintro rfl
      rcases chars '\n' member with value | equals | quote
      · cases value
      · cases equals
      · cases quote
  refine ⟨rest ++ close.toList, by rw [String.toList_append, shape, List.cons_append], ?_, ?_⟩
  · intro member
    rcases List.mem_append.1 member with inTag | inClose
    · exact (other _ inTag).1 rfl
    · exact closes.1 inClose
  · intro member
    rcases List.mem_append.1 member with inTag | inClose
    · exact (other _ inTag).2 rfl
    · exact closes.2 inClose

theorem text_of_leaf (leaf : e.children = []) :
    e.text = tagText e.name e.attributes ++ "/>" := by
  cases e with
  | mk name attributes children =>
      cases leaf
      simp only [Element.text, Element.name, Element.attributes]

theorem Element.Plain.isTag_text (plain : e.Plain) (leaf : e.children = []) : IsTag e.text := by
  rw [text_of_leaf leaf]
  exact plain.isTag (by decide)

/-- The line of an element is no animation if the element's name begins otherwise. -/
theorem isAnimation_tag {name : String} {c : Char} (first : name.toList.head? = some c)
    (other : c ≠ 'a') (attributes : List (String × String)) (close : String) :
    isAnimation (tagText name attributes ++ close) = false := by
  have mark : animationMark = '<' :: 'a' :: "nimate".toList := rfl
  have bracket : "<".toList = ['<'] := rfl
  rw [Bool.eq_false_iff]
  intro animation
  have start : animationMark <+: (tagText name attributes ++ close).toList :=
    List.isPrefixOf_iff_prefix.1 animation
  cases chars : name.toList with
  | nil =>
      rw [chars] at first
      cases first
  | cons d rest =>
      rw [chars] at first
      cases first
      simp only [tagText, String.toList_append, chars, bracket, mark, List.append_assoc,
        List.cons_append, List.nil_append, List.cons_prefix_cons] at start
      exact other start.2.1.symm

theorem isAnimation_text_of_leaf (leaf : e.children = []) {c : Char}
    (first : e.name.toList.head? = some c) (other : c ≠ 'a') : isAnimation e.text = false := by
  rw [text_of_leaf leaf]
  exact isAnimation_tag first other e.attributes "/>"

end Tags

/-! ### The lines of a drawing -/

/-- A tag without content, with its attributes in this order. -/
def emptyTag (name : String) (attributes : List (String × String)) : String :=
  "<" ++ name ++ String.join (attributes.map attributeText) ++ "/>"

def edgeLine (e : Edge) : String :=
  emptyTag "line"
    [("id", e.key.elementId),
     ("stroke", e.stroke.toHex),
     ("stroke-width", Number.plain e.width),
     ("x1", Number.plain e.sourcePoint.x),
     ("x2", Number.plain e.targetPoint.x),
     ("y1", Number.plain e.sourcePoint.y),
     ("y2", Number.plain e.targetPoint.y)]

def nodeLine (n : Node) : String :=
  emptyTag "circle"
    [("cx", Number.plain n.center.x),
     ("cy", Number.plain n.center.y),
     ("fill", n.fill.toHex),
     ("id", n.key.elementId),
     ("r", Number.plain n.radius)]

def animationLine (spec : AnimateSpec) : String :=
  emptyTag "animate"
    [("attributeName", spec.attributeName),
     ("begin", spec.begin),
     ("dur", spec.duration),
     ("from", spec.startColor),
     ("id", spec.id),
     ("to", spec.endColor),
     ("xlink:href", "#" ++ spec.target)]

theorem text_line (e : Edge) : (line e).text = edgeLine e := by
  rw [text_of_leaf rfl]
  simp only [line, Element.name, Element.attributes, tagText, sortByName, List.foldr_cons,
    List.foldr_nil, insertByName, String.reduceLT, if_true, if_false, edgeLine, emptyTag]

theorem text_circle (n : Node) : (circle n).text = nodeLine n := by
  rw [text_of_leaf rfl]
  simp only [circle, Element.name, Element.attributes, tagText, sortByName, List.foldr_cons,
    List.foldr_nil, insertByName, String.reduceLT, if_true, if_false, nodeLine, emptyTag]

theorem text_animate (spec : AnimateSpec) : (animate spec).text = animationLine spec := by
  rw [text_of_leaf rfl]
  simp only [animate, Element.name, Element.attributes, tagText, sortByName, List.foldr_cons,
    List.foldr_nil, insertByName, String.reduceLT, if_true, if_false, animationLine, emptyTag]

example : animationLine ⟨"anim-0", "node-fan-left", "fill", "#999999", "#0F9D58", "+0.00s", "1.0s"⟩ =
    "<animate attributeName=\"fill\" begin=\"+0.00s\" dur=\"1.0s\" from=\"#999999\" id=\"anim-0\" " ++
      "to=\"#0F9D58\" xlink:href=\"#node-fan-left\"/>" := by decide

/-- The first line of an element that contains others. -/
def openingLine (e : Element) : String :=
  tagText e.name e.attributes ++ ">"

/-- The lines of the shapes of a scene: its edges, and then its nodes. -/
def shapeLines (s : Scene) : List String :=
  s.edges.map edgeLine ++ s.nodes.map nodeLine

theorem map_text_shapes (s : Scene) : (shapes s).map text = shapeLines s := by
  have edges : (s.edges.map line).map text = s.edges.map edgeLine := by
    rw [List.map_map]
    exact List.map_congr_left fun e _ => text_line e
  have nodes : (s.nodes.map circle).map text = s.nodes.map nodeLine := by
    rw [List.map_map]
    exact List.map_congr_left fun n _ => text_circle n
  rw [shapes, List.map_append, edges, nodes, shapeLines]

/-- Children are on lines of their own, between a first and a last line. -/
theorem unlines_children (first last : String) (children : List Element) :
    unlines (first :: (children.map text ++ [last])) =
      first ++ childrenText children ++ "\n" ++ last := by
  induction children generalizing first with
  | nil => simp [unlines, childrenText, String.intercalate_cons_cons]
  | cons child rest ih =>
      have later := ih child.text
      simp only [unlines, List.map_cons, List.cons_append, childrenText] at later ⊢
      rw [String.intercalate_cons_cons, later]
      simp only [String.append_assoc]

/-- An element with content has an opening line, a line for each child, and a closing line. -/
theorem text_of_children {name close : String} {attributes : List (String × String)}
    {children : List Element} (some_child : children ≠ []) (closes : close = "</" ++ name ++ ">") :
    (Element.mk name attributes children).text =
      unlines ((tagText name attributes ++ ">") :: (children.map text ++ [close])) := by
  cases children with
  | nil => exact absurd rfl some_child
  | cons child rest =>
      have mark : "\n</" = "\n" ++ "</" := rfl
      rw [unlines_children, Element.text, closes, mark]
      simp only [String.append_assoc]

/-- The lines of the drawing of a scene, with lines of animations. -/
def drawingLines (s : Scene) (animations : List String) : List String :=
  openingLine (ofScene s) :: (shapeLines s ++ animations ++ ["</svg>"])

theorem text_append_animations {s : Scene} (some_shape : shapes s ≠ []) (specs : List AnimateSpec) :
    ((ofScene s).append (specs.map animate)).text =
      unlines (drawingLines s (specs.map animationLine)) := by
  have lined : specs.map animationLine = (specs.map animate).map text := by
    rw [List.map_map]
    exact (List.map_congr_left fun spec _ => text_animate spec).symm
  have some_child := List.append_ne_nil_of_left_ne_nil some_shape (specs.map animate)
  rw [drawingLines, lined, ← map_text_shapes, ← List.map_append]
  exact text_of_children some_child rfl

theorem isTag_closing : IsTag "</svg>" :=
  ⟨"/svg>".toList, rfl, by decide, by decide⟩

/-- The lines of a drawing are tags. -/
theorem isTag_of_mem_drawingLines {s : Scene} {animations : List String}
    (tags : ∀ l ∈ animations, IsTag l) {l : String} (member : l ∈ drawingLines s animations) :
    IsTag l := by
  simp only [drawingLines, shapeLines, List.mem_cons, List.mem_append, List.mem_map,
    List.not_mem_nil, or_false] at member
  rcases member with opening | ((⟨e, _, edge⟩ | ⟨n, _, node⟩) | animation) | closing
  · rw [opening]
    exact (plain_root s.canvas (shapes s)).isTag (by decide)
  · rw [← edge, ← text_line]
    exact (plain_line e).isTag_text rfl
  · rw [← node, ← text_circle]
    exact (plain_circle n).isTag_text rfl
  · exact tags l animation
  · rw [closing]
    exact isTag_closing

theorem isTag_animationLine {s : Scene} {step : Step} {spec : AnimateSpec}
    (resolved : s.spec step = .ok spec) : IsTag (animationLine spec) := by
  rw [← text_animate]
  exact (plain_animate resolved).isTag_text rfl

theorem isAnimation_animationLine (spec : AnimateSpec) : isAnimation (animationLine spec) := by
  have tag : "<" ++ "animate" = String.ofList animationMark := rfl
  rw [isAnimation, animationLine, emptyTag, tag, List.isPrefixOf_iff_prefix]
  simp only [String.toList_append, String.toList_ofList, List.append_assoc]
  exact List.prefix_append _ _

theorem isAnimation_of_mem_shapeLines {s : Scene} {l : String} (member : l ∈ shapeLines s) :
    isAnimation l = false := by
  rcases List.mem_append.1 member with edge | node
  · obtain ⟨e, _, rfl⟩ := List.mem_map.1 edge
    have first : "line".toList.head? = some 'l' := by decide
    rw [← text_line]
    exact isAnimation_text_of_leaf rfl first (by decide)
  · obtain ⟨n, _, rfl⟩ := List.mem_map.1 node
    have first : "circle".toList.head? = some 'c' := by decide
    rw [← text_circle]
    exact isAnimation_text_of_leaf rfl first (by decide)

/-- Of the lines of a drawing, only those added for animations are such lines. -/
theorem filter_drawingLines (s : Scene) (specs : List AnimateSpec) :
    (drawingLines s (specs.map animationLine)).filter isAnimation = specs.map animationLine ∧
      (drawingLines s (specs.map animationLine)).filter (!isAnimation ·) = drawingLines s [] := by
  have first : "svg".toList.head? = some 's' := by decide
  have opening : isAnimation (openingLine (ofScene s)) = false :=
    isAnimation_tag first (by decide) _ _
  have closing : isAnimation "</svg>" = false := by decide
  have animation : ∀ l ∈ specs.map animationLine, isAnimation l = true := by
    intro l member
    obtain ⟨spec, _, rfl⟩ := List.mem_map.1 member
    exact isAnimation_animationLine spec
  have noShape : (shapeLines s).filter isAnimation = [] := by
    rw [List.filter_eq_nil_iff]
    intro l member
    simp [isAnimation_of_mem_shapeLines member]
  have allShapes : (shapeLines s).filter (!isAnimation ·) = shapeLines s := by
    rw [List.filter_eq_self]
    intro l member
    simp [isAnimation_of_mem_shapeLines member]
  have allAnimations := List.filter_eq_self.2 animation
  have noAnimation : (specs.map animationLine).filter (!isAnimation ·) = [] := by
    rw [List.filter_eq_nil_iff]
    intro l member
    simp [animation l member]
  constructor
  · simp [drawingLines, opening, closing, noShape, allAnimations]
  · simp [drawingLines, opening, closing, allShapes, noAnimation]

end Svg

/-! ### The texts of an artwork -/

namespace Artwork

open Svg

/-- The texts of an artwork whose animations have these attribute values. -/
structure Lines (a : Artwork) (specs : List AnimateSpec) : Prop where
  still : lines a.still = drawingLines a.scene []
  moving : lines a.moving = drawingLines a.scene (specs.map animationLine)
  /-- No value holds a mark that ends it. -/
  values : ∀ spec ∈ specs, (animate spec).Plain
  /-- The drawing at rest mentions no animation, wherever in a line. -/
  noAnimation : ¬animationMark <:+: a.still.toList
  animations : (lines a.moving).filter isAnimation = specs.map animationLine
  /-- Without the lines of its animations, the animated drawing is the drawing at rest. -/
  deleted : unlines ((lines a.moving).filter (!isAnimation ·)) = a.still

variable {d : Design} {a : Artwork}

theorem lines_of_texts {specs : List AnimateSpec} (resolved : a.specs = .ok specs)
    (some_shape : shapes a.scene ≠ []) (still : a.still = (Svg.ofScene a.scene).text)
    (moving : a.moving = ((Svg.ofScene a.scene).append (specs.map animate)).text) :
    a.Lines specs := by
  have steps : ∀ spec ∈ specs, ∃ step, a.scene.spec step = .ok spec := by
    intro spec member
    obtain ⟨step, _, here⟩ := exists_of_mem_right (mapM_eq_ok_iff.1 resolved) member
    exact ⟨step, here⟩
  have stillText : a.still = unlines (drawingLines a.scene []) := by
    have noSpecs := text_append_animations some_shape []
    rw [still]
    simpa [Element.append, Svg.ofScene, root, Element.name, Element.attributes,
      Element.children] using noSpecs
  have movingText := moving.trans (text_append_animations some_shape specs)
  have stillTags : ∀ l ∈ drawingLines a.scene [], IsTag l := by
    intro l member
    apply isTag_of_mem_drawingLines _ member
    intro l impossible
    cases impossible
  have movingTags : ∀ l ∈ drawingLines a.scene (specs.map animationLine), IsTag l := by
    intro l member
    apply isTag_of_mem_drawingLines _ member
    intro l animation
    obtain ⟨spec, listed, rfl⟩ := List.mem_map.1 animation
    obtain ⟨step, here⟩ := steps spec listed
    exact isTag_animationLine here
  have stillLines : lines a.still = drawingLines a.scene [] := by
    rw [stillText]
    exact lines_unlines (List.cons_ne_nil _ _) fun l member => (stillTags l member).noBreak
  have movingLines : lines a.moving = drawingLines a.scene (specs.map animationLine) := by
    rw [movingText]
    exact lines_unlines (List.cons_ne_nil _ _) fun l member => (movingTags l member).noBreak
  obtain ⟨animations, others⟩ := filter_drawingLines a.scene specs
  refine ⟨stillLines, movingLines, ?_, ?_, ?_, ?_⟩
  · intro spec member
    obtain ⟨step, here⟩ := steps spec member
    exact plain_animate here
  · intro mentioned
    rw [stillText] at mentioned
    obtain ⟨l, member, animation⟩ := exists_animation_of_infix stillTags mentioned
    have kept : l ∈ (drawingLines a.scene []).filter isAnimation :=
      List.mem_filter.2 ⟨member, animation⟩
    have none := (filter_drawingLines a.scene []).1
    rw [List.map_nil] at none
    rw [none] at kept
    cases kept
  · rw [movingLines]
    exact animations
  · rw [movingLines, others]
    exact stillText.symm

/-- A scene of a design has shapes to draw. -/
theorem shapes_ne_nil (passed : d.validate = .ok ()) (built : Scene.ofDesign d = .ok a.scene) :
    shapes a.scene ≠ [] := by
  obtain ⟨s, built', _, nodes, _⟩ := Scene.exists_ofDesign passed
  cases built.symm.trans built'
  have some_node : a.scene.nodes ≠ [] := by
    intro none
    rw [Scene.nodeKeys, none] at nodes
    cases nodes
  apply List.append_ne_nil_of_right_ne_nil
  simpa using some_node

/-- Whatever design has an artwork, its animated drawing is its drawing at rest with a line for each
of its animations, of which there are two for each cue. -/
theorem ofDesign_lines (made : ofDesign d = .ok a) :
    Scene.ofDesign d = .ok a.scene ∧
      ∃ specs, a.specs = .ok specs ∧ specs.length = 2 * d.script.length ∧ a.Lines specs := by
  obtain ⟨scripted, drawing, stages⟩ := exists_stages made
  obtain ⟨specs, resolved, animated⟩ := stages.exists_specs
  have moving : a.moving = ((Svg.ofScene a.scene).append (specs.map animate)).text := by
    rw [stages.moving, animated]
  refine ⟨stages.scene, specs, resolved, ?_, ?_⟩
  · exact stages.length_specs resolved
  · exact lines_of_texts resolved (shapes_ne_nil stages.passed stages.scene) stages.still moving

theorem ofDesign_lines_standard : ∃ a, ofDesign .standard = .ok a ∧
    Scene.ofDesign .standard = .ok a.scene ∧
      ∃ specs, a.specs = .ok specs ∧ specs.length = 2 * Design.standard.script.length ∧
        a.Lines specs := by
  have drawn : ∀ cue ∈ Design.standard.script, cue.target.Drawn := by decide
  obtain ⟨a, made⟩ := exists_ofDesign_of_drawn rfl drawn
  exact ⟨a, made, ofDesign_lines made⟩

end Artwork

end Emblem
