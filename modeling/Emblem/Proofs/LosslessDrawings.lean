/-
Module: Emblem.Proofs.LosslessDrawings
Purpose: The text of a drawing at rest gives back all that it shows: the canvas, and of every edge and
  node in their order all but the handles. Lines end at breaks and values at quotes, and no value has
  either; the values themselves tell keys, numbers and colours apart.
Main exports: Node.drawn, Edge.drawn, Svg.SameNames, Svg.Element.Plain.tagText_inj, Svg.edgeLine_inj,
  Svg.nodeLine_inj, Svg.exists_lines_text, Svg.ofScene_text_eq_iff, Scene.Consistent.nodes_eq
-/
import Emblem.Proofs.DistinctNumbers
import Emblem.Proofs.DrawingLines
import Emblem.Proofs.ElementIds
import Emblem.Proofs.RoundTrip

namespace Emblem

/-- What a drawing shows of a node. -/
def Node.drawn (n : Node) : NodeKey × Point × Float × Color :=
  (n.key, n.center, n.radius, n.fill)

/-- A drawing shows all of a node but its handle. -/
theorem Node.eq_of_drawn {n n' : Node} (id : n.id = n'.id) (shown : n.drawn = n'.drawn) : n = n' := by
  cases n
  cases n'
  cases id
  cases shown
  rfl

/-- What a drawing shows of an edge. -/
def Edge.drawn (e : Edge) : EdgeKey × Point × Point × Color × Float :=
  (e.key, e.sourcePoint, e.targetPoint, e.stroke, e.width)

/-! ### Values -/

theorem Color.toHex_injective : Function.Injective toHex := by
  intro c c' same
  have read := congrArg ofHex same
  rw [ofHex_toHex, ofHex_toHex] at read
  exact Except.ok.inj read

/-- Points with the same texts of coordinates are the same. -/
theorem Point.eq_of_plain {p q : Point} (x : Number.plain p.x = Number.plain q.x)
    (y : Number.plain p.y = Number.plain q.y) : p = q := by
  cases p
  cases q
  cases Number.plain_injective x
  cases Number.plain_injective y
  rfl

/-- Canvases with the same texts of sides are the same. -/
theorem Canvas.eq_of_toString {c c' : Canvas}
    (width : toString c.width.toNat = toString c'.width.toNat)
    (height : toString c.height.toNat = toString c'.height.toNat) : c = c' := by
  cases c
  cases c'
  cases UInt32.toNat_inj.1 (Nat.repr_inj.1 width)
  cases UInt32.toNat_inj.1 (Nat.repr_inj.1 height)
  rfl

theorem IsValue.noQuote {text : String} (value : IsValue text) : '"' ∉ text.toList := by
  intro member
  exact absurd (value '"' member) (by decide)

/-! ### Lists -/

section Lists

variable {α β γ δ : Type}

/-- The first mark of its kind tells what is in front of it from what comes after. -/
theorem append_mark_inj {mark : α} {before before' after after' : List α} (first : mark ∉ before)
    (first' : mark ∉ before') (same : before ++ mark :: after = before' ++ mark :: after') :
    before = before' ∧ after = after' := by
  induction before generalizing before' with
  | nil =>
      cases before' with
      | nil => exact ⟨rfl, (List.cons.inj same).2⟩
      | cons c rest =>
          rw [(List.cons.inj same).1] at first'
          exact absurd List.mem_cons_self first'
  | cons c rest ih =>
      cases before' with
      | nil =>
          rw [← (List.cons.inj same).1] at first
          exact absurd List.mem_cons_self first
      | cons d rest' =>
          obtain ⟨rfl, later⟩ := List.cons.inj same
          obtain ⟨rfl, rfl⟩ := ih (mt (List.mem_cons_of_mem _) first)
            (mt (List.mem_cons_of_mem _) first') later
          exact ⟨rfl, rfl⟩

/-- What can be told from one view of each element can be told from that view of a list. -/
theorem map_eq_map_of {f : α → β} {g : α → γ} (tells : ∀ a b, f a = f b → g a = g b) {l l' : List α}
    (same : l.map f = l'.map f) : l.map g = l'.map g := by
  rw [← List.forall₂_eq_eq_eq, List.forall₂_map_left_iff, List.forall₂_map_right_iff] at same ⊢
  exact same.imp tells

/-- Two kinds of elements, one after the other, can be told apart. -/
theorem append_kinds_inj {kind : α → Bool} {l l' m m' : List α} (one : ∀ a ∈ l, kind a = true)
    (one' : ∀ a ∈ l', kind a = true) (other : ∀ a ∈ m, kind a = false)
    (other' : ∀ a ∈ m', kind a = false) (same : l ++ m = l' ++ m') : l = l' ∧ m = m' := by
  have first : ∀ {l m : List α}, (∀ a ∈ l, kind a = true) → (∀ a ∈ m, kind a = false) →
      (l ++ m).takeWhile kind = l := by
    intro l m one other
    rw [List.takeWhile_append_of_pos one]
    cases m with
    | nil => simp
    | cons a rest => simp [other a List.mem_cons_self]
  have start := congrArg (List.takeWhile kind) same
  rw [first one other, first one' other'] at start
  subst start
  exact ⟨rfl, List.append_cancel_left same⟩

end Lists

namespace Svg

open Element

/-! ### Tags -/

/-- Attributes with the same names in the same order. -/
def SameNames : List (String × String) → List (String × String) → Prop :=
  List.Forall₂ fun a b => a.1 = b.1

section Names

variable {a b : String × String} {as bs : List (String × String)}

theorem sameNames_of_map (names : as.map Prod.fst = bs.map Prod.fst) : SameNames as bs := by
  rw [← List.forall₂_eq_eq_eq, List.forall₂_map_left_iff, List.forall₂_map_right_iff] at names
  exact names

/-- Attributes with the same names have the same text only if all the values are the same. -/
theorem attributes_inj (names : SameNames as bs) (values : ∀ a ∈ as, IsValue a.2)
    (values' : ∀ b ∈ bs, IsValue b.2) {close close' : List Char}
    (same : (String.join (as.map attributeText)).toList ++ close =
      (String.join (bs.map attributeText)).toList ++ close') : as = bs := by
  induction names with
  | nil => rfl
  | @cons a b rest rest' name _ ih =>
      obtain ⟨n, value⟩ := a
      obtain ⟨n', value'⟩ := b
      obtain rfl : n = n' := name
      obtain ⟨here, later⟩ := List.forall_mem_cons.1 values
      obtain ⟨here', later'⟩ := List.forall_mem_cons.1 values'
      have ending : "\"".toList = ['"'] := rfl
      simp only [List.map_cons, String.join_cons, attributeText, String.toList_append,
        List.append_assoc, List.append_cancel_left_eq, ending, List.cons_append,
        List.nil_append] at same
      obtain ⟨valueChars, others⟩ := append_mark_inj here.noQuote here'.noQuote same
      obtain rfl := String.toList_injective valueChars
      rw [ih later later' others]

/-- Where an attribute is inserted depends on its name alone. -/
theorem SameNames.insertByName (name : a.1 = b.1) (names : SameNames as bs) :
    SameNames (insertByName a as) (insertByName b bs) := by
  induction names with
  | nil => exact .cons name .nil
  | @cons c d rest rest' first later ih =>
      unfold Element.insertByName
      rw [name, first]
      by_cases here : b.1 < d.1
      · rw [if_pos here, if_pos here]
        exact .cons name (.cons first later)
      · rw [if_neg here, if_neg here]
        exact .cons first ih

theorem SameNames.insertByName_inj (name : a.1 = b.1) (names : SameNames as bs)
    (same : Element.insertByName a as = Element.insertByName b bs) : a = b ∧ as = bs := by
  induction names with
  | nil => exact ⟨(List.cons.inj same).1, rfl⟩
  | @cons c d rest rest' first later ih =>
      unfold Element.insertByName at same
      rw [name, first] at same
      by_cases here : b.1 < d.1
      · rw [if_pos here, if_pos here] at same
        exact List.cons.inj same
      · rw [if_neg here, if_neg here] at same
        obtain ⟨rfl, others⟩ := List.cons.inj same
        obtain ⟨rfl, rfl⟩ := ih others
        exact ⟨rfl, rfl⟩

theorem SameNames.sortByName (names : SameNames as bs) :
    SameNames (sortByName as) (sortByName bs) := by
  induction names with
  | nil => exact .nil
  | cons first _ ih => exact ih.insertByName first

theorem SameNames.sortByName_inj (names : SameNames as bs)
    (same : Element.sortByName as = Element.sortByName bs) : as = bs := by
  induction names with
  | nil => rfl
  | cons first later ih =>
      obtain ⟨rfl, others⟩ := (sortByName later).insertByName_inj first same
      rw [ih others]

end Names

/-- A tag gives back its values, however it is closed. -/
theorem Element.Plain.tagText_inj {e e' : Element} (plain : e.Plain) (plain' : e'.Plain)
    {close close' : String} (name : e.name = e'.name)
    (names : e.attributes.map Prod.fst = e'.attributes.map Prod.fst)
    (same : tagText e.name e.attributes ++ close = tagText e'.name e'.attributes ++ close') :
    e.attributes = e'.attributes := by
  have values : ∀ {e : Element}, e.Plain → ∀ a ∈ Element.sortByName e.attributes, IsValue a.2 :=
    fun plain a sorted => (plain.attributes a (mem_sortByName.1 sorted)).2
  have chars := congrArg String.toList same
  simp only [tagText, name, String.toList_append, List.append_assoc,
    List.append_cancel_left_eq] at chars
  have sameNames := sameNames_of_map names
  exact sameNames.sortByName_inj
    (attributes_inj sameNames.sortByName (values plain) (values plain') chars)

/-! ### Lines of shapes -/

theorem edgeLine_inj {e e' : Edge} (same : edgeLine e = edgeLine e') : e.drawn = e'.drawn := by
  rw [← text_line, ← text_line, text_of_leaf rfl, text_of_leaf rfl] at same
  have values := (plain_line e).tagText_inj (plain_line e') rfl rfl same
  simp only [line, attributes, List.cons.injEq, Prod.mk.injEq, true_and, and_true] at values
  obtain ⟨key, x, y, x', y', stroke, width⟩ := values
  rw [Edge.drawn, Edge.drawn, EdgeKey.elementId_injective key, Point.eq_of_plain x y,
    Point.eq_of_plain x' y', Color.toHex_injective stroke, Number.plain_injective width]

theorem nodeLine_inj {n n' : Node} (same : nodeLine n = nodeLine n') : n.drawn = n'.drawn := by
  rw [← text_circle, ← text_circle, text_of_leaf rfl, text_of_leaf rfl] at same
  have values := (plain_circle n).tagText_inj (plain_circle n') rfl rfl same
  simp only [circle, attributes, List.cons.injEq, Prod.mk.injEq, true_and, and_true] at values
  obtain ⟨key, x, y, radius, fill⟩ := values
  rw [Node.drawn, Node.drawn, NodeKey.elementId_injective key, Point.eq_of_plain x y,
    Number.plain_injective radius, Color.toHex_injective fill]

/-- Whether a line is that of an edge. -/
def isEdge (l : String) : Bool :=
  "<line".toList.isPrefixOf l.toList

theorem isEdge_edgeLine (e : Edge) : isEdge (edgeLine e) = true := by
  have tag : "<" ++ "line" = "<line" := rfl
  rw [isEdge, edgeLine, emptyTag, tag, List.isPrefixOf_iff_prefix]
  simp only [String.toList_append, List.append_assoc]
  exact List.prefix_append _ _

theorem isEdge_nodeLine (n : Node) : isEdge (nodeLine n) = false := by
  have tag : "<" ++ "circle" = "<circle" := rfl
  have circle : "<circle".toList = ['<', 'c', 'i', 'r', 'c', 'l', 'e'] := rfl
  have mark : "<line".toList = ['<', 'l', 'i', 'n', 'e'] := rfl
  simp [isEdge, nodeLine, emptyTag, tag, circle, mark, List.isPrefixOf]

/-- The lines of the shapes give back every edge and every node that is shown. -/
theorem shapeLines_inj {s t : Scene} (same : shapeLines s = shapeLines t) :
    s.nodes.map Node.drawn = t.nodes.map Node.drawn ∧
      s.edges.map Edge.drawn = t.edges.map Edge.drawn := by
  have edge : ∀ (es : List Edge), ∀ l ∈ es.map edgeLine, isEdge l = true :=
    fun _ => List.forall_mem_map.2 fun e _ => isEdge_edgeLine e
  have node : ∀ (ns : List Node), ∀ l ∈ ns.map nodeLine, isEdge l = false :=
    fun _ => List.forall_mem_map.2 fun n _ => isEdge_nodeLine n
  obtain ⟨edges, nodes⟩ := append_kinds_inj (edge _) (edge _) (node _) (node _) same
  exact ⟨map_eq_map_of (fun _ _ => nodeLine_inj) nodes, map_eq_map_of (fun _ _ => edgeLine_inj) edges⟩

/-! ### Whole drawings -/

/-- The text of a drawing is the tag of its canvas, closed at once if there are no shapes; otherwise
the lines of the shapes follow, and one more. -/
theorem exists_lines_text (s : Scene) : ∃ close rest,
    lines (ofScene s).text = (tagText (ofScene s).name (ofScene s).attributes ++ close) :: rest ∧
      rest.dropLast = shapeLines s := by
  by_cases none : shapes s = []
  · have leaf : (ofScene s).text = tagText (ofScene s).name (ofScene s).attributes ++ "/>" :=
      text_of_leaf none
    have tag : IsTag (ofScene s).text := (plain_root s.canvas (shapes s)).isTag_text none
    have whole : lines (unlines [(ofScene s).text]) = [(ofScene s).text] := by
      apply lines_unlines (List.cons_ne_nil _ _)
      intro l member
      rw [List.mem_singleton.1 member]
      exact tag.noBreak
    have single : unlines [(ofScene s).text] = (ofScene s).text := String.intercalate_singleton
    refine ⟨"/>", [], ?_, ?_⟩
    · rw [← leaf]
      rwa [single] at whole
    · rw [← map_text_shapes, none]
      rfl
  · have text : (ofScene s).text = unlines (drawingLines s []) := by
      rw [drawingLines, List.append_nil, ← map_text_shapes]
      exact text_of_children none rfl
    refine ⟨">", shapeLines s ++ ["</svg>"], ?_, List.dropLast_concat⟩
    have whole : lines (unlines (drawingLines s [])) = drawingLines s [] :=
      lines_unlines (List.cons_ne_nil _ _) fun l member =>
        (isTag_of_mem_drawingLines (by simp) member).noBreak
    rw [text, whole, drawingLines, List.append_nil]
    rfl

/-- The tag of a drawing gives back its canvas, whatever the drawing contains. -/
theorem canvas_inj {s t : Scene} {close close' : String}
    (same : tagText (ofScene s).name (ofScene s).attributes ++ close =
      tagText (ofScene t).name (ofScene t).attributes ++ close') : s.canvas = t.canvas := by
  have values := (plain_root s.canvas (shapes s)).tagText_inj (plain_root t.canvas (shapes t))
    rfl rfl same
  simp only [root, attributes, List.cons.injEq, Prod.mk.injEq, true_and, and_true] at values
  obtain ⟨width, height, _⟩ := values
  exact Canvas.eq_of_toString width height

theorem drawn_of_text {s t : Scene} (same : (ofScene s).text = (ofScene t).text) :
    s.canvas = t.canvas ∧ s.nodes.map Node.drawn = t.nodes.map Node.drawn ∧
      s.edges.map Edge.drawn = t.edges.map Edge.drawn := by
  obtain ⟨close, rest, ls, shapes⟩ := exists_lines_text s
  obtain ⟨close', rest', ls', shapes'⟩ := exists_lines_text t
  rw [same, ls'] at ls
  obtain ⟨first, rfl⟩ := List.cons.inj ls
  exact ⟨(canvas_inj first).symm, shapeLines_inj (shapes.symm.trans shapes')⟩

theorem ofScene_eq_of_drawn {s t : Scene} (canvas : s.canvas = t.canvas)
    (nodes : s.nodes.map Node.drawn = t.nodes.map Node.drawn)
    (edges : s.edges.map Edge.drawn = t.edges.map Edge.drawn) : ofScene s = ofScene t := by
  have circles : s.nodes.map circle = t.nodes.map circle := by
    refine map_eq_map_of ?_ nodes
    intro n n' same
    simp only [Node.drawn, Prod.mk.injEq] at same
    obtain ⟨key, center, radius, fill⟩ := same
    rw [circle, circle, key, center, radius, fill]
  have lines : s.edges.map line = t.edges.map line := by
    refine map_eq_map_of ?_ edges
    intro e e' same
    simp only [Edge.drawn, Prod.mk.injEq] at same
    obtain ⟨key, source, target, stroke, width⟩ := same
    rw [line, line, key, source, target, stroke, width]
  rw [ofScene, ofScene, canvas, circles, lines]

/-- The drawing at rest is lossless: any two scenes, and so any two that were built by calls, have
the same text exactly if they have the same canvas and show the same nodes and the same edges in the
same order. This needs no numbers to be finite; all that are not numbers count as one. -/
theorem ofScene_text_eq_iff (s t : Scene) :
    (ofScene s).text = (ofScene t).text ↔
      s.canvas = t.canvas ∧ s.nodes.map Node.drawn = t.nodes.map Node.drawn ∧
        s.edges.map Edge.drawn = t.edges.map Edge.drawn := by
  constructor
  · exact drawn_of_text
  · rintro ⟨canvas, nodes, edges⟩
    rw [ofScene_eq_of_drawn canvas nodes edges]

end Svg

/-! ### Scenes that were built -/

namespace Scene

variable {s t : Scene}

/-- In scenes that were built, handles are places in the lists, so the text gives back the nodes
altogether. -/
theorem Consistent.nodes_eq (consistent : s.Consistent) (consistent' : t.Consistent)
    (same : (Svg.ofScene s).text = (Svg.ofScene t).text) : s.nodes = t.nodes := by
  obtain ⟨_, nodes, _⟩ := Svg.drawn_of_text same
  apply List.ext_getElem?
  intro k
  have here := congrArg (·[k]?) nodes
  simp only [List.getElem?_map] at here
  cases found : s.nodes[k]? with
  | none =>
      rw [found] at here
      exact (Option.map_eq_none_iff.1 here.symm).symm
  | some n =>
      rw [found] at here
      obtain ⟨n', found', shown⟩ := Option.map_eq_some_iff.1 here.symm
      have id := (consistent.node_id k n found).trans (consistent'.node_id k n' found').symm
      rw [found', Node.eq_of_drawn id shown.symm]

end Scene

end Emblem
