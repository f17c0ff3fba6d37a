/-
Module: Emblem.Proofs.RoundTrip
Purpose: Designs that were written are read. Everything in them is read as it was, but for floats, which
  roundings can move where they have many digits or are far from one.
Main exports: Color.ofHex_toHex, carries_target, carries_cue, Schema.Lawful.carries, Design.floats,
  Design.mapFloats, Design.carries, Design.ofJson_toJson
-/
import Emblem.Proofs.DesignCheck
import Emblem.Proofs.Overrides
import Emblem.Proofs.Rereading
import Emblem.Proofs.WrittenValues

namespace Emblem

open Json
open Number (reread reloaded Rereads rereads_reloaded reloaded_eq_iff)

/-! ### Colours -/

namespace Color

theorem hexDigit?_hexChar : ∀ n < 16, hexDigit? (hexChar n) = some n := by
  decide

theorem hexChar_plain : ∀ n < 16, IsPlain (hexChar n) := by
  decide

theorem hexChar_solid : ∀ n < 16, Text.isBlank (hexChar n) = false ∧ hexChar n ≠ '+' := by
  decide

theorem exists_channelText (n : UInt8) :
    ∃ i < 16, ∃ j < 16, channelText n = [hexChar i, hexChar j] ∧ 16 * i + j = n.toNat := by
  have small := n.toNat_lt
  exact ⟨n.toNat / 16, by omega, n.toNat % 16, by omega, rfl, Nat.div_add_mod _ _⟩

theorem channel_hexChar {i j : Nat} (first : i < 16) (second : j < 16) :
    channel [hexChar i, hexChar j] = .ok (16 * i + j) := by
  have number : hexNumber? [hexChar i, hexChar j] = some (16 * i + j) := by
    simp [hexNumber?, hexDigit?_hexChar i first, hexDigit?_hexChar j second]
  unfold channel
  split
  case h_1 signed => exact absurd (List.cons.inj signed).1 (hexChar_solid i first).2
  case h_2 =>
    dsimp only
    rw [number]

/-- A colour is read from its text. -/
theorem ofHex_toHex (c : Color) : ofHex c.toHex = .ok c := by
  obtain ⟨r, r_lt, r', r'_lt, red, sum⟩ := exists_channelText c.red
  obtain ⟨g, g_lt, g', g'_lt, green, sum'⟩ := exists_channelText c.green
  obtain ⟨b, b_lt, b', b'_lt, blue, sum''⟩ := exists_channelText c.blue
  have text : c.toHex.toList = ['#', hexChar r, hexChar r', hexChar g, hexChar g', hexChar b, hexChar b'] := by
    rw [toHex, String.toList_ofList, red, green, blue]
    rfl
  have whole : Text.trim c.toHex.toList = c.toHex.toList := by
    have mark : Text.isBlank '#' = false := by decide
    rw [text]
    simp [Text.trim, mark, (hexChar_solid b' b'_lt).1]
  have ascii : ∀ n < 16, (hexChar n).toNat < 128 := fun n small => (hexChar_plain n small).ascii
  have channels : ofDigits [hexChar r, hexChar r', hexChar g, hexChar g', hexChar b, hexChar b'] =
      .ok (ofChannels c.red.toNat c.green.toNat c.blue.toNat) := by
    rw [ofDigits, channel_hexChar r_lt r'_lt, channel_hexChar g_lt g'_lt, channel_hexChar b_lt b'_lt, sum, sum',
      sum'']
    rfl
  have same : ofChannels c.red.toNat c.green.toNat c.blue.toNat = c := by
    simp [ofChannels]
  -- Nothing is trimmed, so that only the mark goes.
  unfold ofHex
  rw [whole, text, afterMark]
  dsimp only
  rw [channels, same]
  simp [*]

theorem toHex_plain (c : Color) : IsPlainText c.toHex := by
  obtain ⟨r, r_lt, r', r'_lt, red, _⟩ := exists_channelText c.red
  obtain ⟨g, g_lt, g', g'_lt, green, _⟩ := exists_channelText c.green
  obtain ⟨b, b_lt, b', b'_lt, blue, _⟩ := exists_channelText c.blue
  have mark : IsPlain '#' := by decide
  rw [IsPlainText, toHex, String.toList_ofList, red, green, blue]
  simp [hexChar_plain, *]

end Color

/-! ### What is made of values -/

section Making

variable {α β σ : Type} {r : Reader α} {v : Value} {a : α}

theorem Json.Carries.map (carries : Carries r v a) (stable : Stable r) (f : α → β) :
    Carries (return f (← r)) v (f a) :=
  ⟨stable.document_map carries.document f, carries.begins⟩

/-- A member made of a reader and a setter fits if its value is carried. -/
theorem Json.Carries.fits {members : List (Member σ)} {name : String} {f : α → σ → σ} {s : σ}
    (carries : Carries r v a) (stable : Stable r) (plain : IsPlainText name)
    (found : members.find? (·.name == name) = some ⟨name, fun s => return f (← r) s⟩) :
    Fits members (written (name, v)) name s (f a s) :=
  fits_written plain found (stable.document_map carries.document fun a => f a s)

/-- A colour is carried by its text. -/
theorem carries_color (c : Color) : Carries readColor c.toJson c := by
  have text : Carries readText c.toJson c.toHex := carries_text c.toHex_plain
  obtain ⟨space, blank, _, reads⟩ := readText_stable.exists_space text.document
  have whole := reads [] closes_nil
  rw [List.append_nil, List.append_nil] at whole
  refine ⟨document_of_reads (whole.bind ?_) blank, text.begins⟩
  rw [Color.ofHex_toHex]
  exact .pure _ _

end Making

/-! ### The values of a design -/

theorem carries_canvas (c : Canvas) : Carries readCanvas c.toJson c := by
  have side : ∀ n : UInt32, Carries (readNatural "u32" sideLimit) (.natural n.toNat) n.toNat :=
    fun n => carries_natural (Nat.le_of_lt_succ n.toNat_lt) (by decide)
  have fills : Fills canvasMembers ([("width", Value.natural c.width.toNat),
      ("height", .natural c.height.toNat)].map written) ["width", "height"] ⟨0, 0⟩
      ⟨c.width.toNat.toUInt32, c.height.toNat.toUInt32⟩ :=
    .cons ((side _).fits (f := fun n c => { c with width := n.toUInt32 }) (readNatural_stable _ _)
      (by decide) rfl)
    (.cons ((side _).fits (f := fun n c => { c with height := n.toUInt32 }) (readNatural_stable _ _)
      (by decide) rfl) .nil)
  simp only [Nat.toUInt32_eq, UInt32.ofNat_toNat] at fills
  exact carries_record fills canvasMembers_stable (by decide) (.inr (by decide))

theorem carries_point {p q : Point} (x : reread p.x = some q.x) (y : reread p.y = some q.y) :
    Carries readPoint p.toJson q := by
  have fills : Fills pointMembers ([("x", Value.float p.x), ("y", .float p.y)].map written) ["x", "y"]
      ⟨0, 0⟩ q :=
    .cons ((carries_float x).fits (f := fun x p => { p with x := x }) readFloat_stable (by decide) rfl)
    (.cons ((carries_float y).fits (f := fun y p => { p with y := y }) readFloat_stable (by decide) rfl) .nil)
  exact carries_record fills pointMembers_stable (by decide) (.inr (by decide))

theorem carries_side (side : Side) : Carries readSide side.toJson side := by
  cases side with
  | left => exact carries_constant (by decide) rfl
  | right => exact carries_constant (by decide) rfl

theorem carries_loopPolicy (policy : LoopPolicy) : Carries readLoopPolicy policy.toJson policy := by
  cases policy with
  | includeTerminal => exact carries_constant (by decide) rfl
  | excludeTerminal => exact carries_constant (by decide) rfl

theorem carries_index {i : Nat} (fits : i ≤ indexLimit) : Carries readIndex (.natural i) i :=
  carries_natural fits (by decide)

/-- The ring indices in the key of a node. -/
def NodeKey.indices : NodeKey → List Nat
  | ring i => [i]
  | fan _ => []

def EdgeKey.indices : EdgeKey → List Nat
  | fan _ => []
  | ring i j => [i, j]

def Cue.Target.indices : Cue.Target → List Nat
  | node key => key.indices
  | edge key => key.indices

theorem carries_nodeKey {key : NodeKey} (fits : ∀ i ∈ key.indices, i ≤ indexLimit) :
    Carries readNodeKey key.toJson key := by
  cases key with
  | ring i =>
      have index : i ≤ indexLimit := fits i List.mem_cons_self
      exact carries_variant (by decide) rfl (stable_map (readNatural_stable _ _) _)
        ((carries_index index).map (readNatural_stable _ _) _)
  | fan side =>
      exact carries_variant (by decide) rfl (stable_map readSide_stable _)
        ((carries_side side).map readSide_stable _)

theorem carries_edgeKey {key : EdgeKey} (fits : ∀ i ∈ key.indices, i ≤ indexLimit) :
    Carries readEdgeKey key.toJson key := by
  cases key with
  | fan side =>
      exact carries_variant (by decide) rfl (stable_map readSide_stable _)
        ((carries_side side).map readSide_stable _)
  | ring i j =>
      have first : i ≤ indexLimit := fits i List.mem_cons_self
      have second : j ≤ indexLimit := fits j (List.mem_cons_of_mem _ List.mem_cons_self)
      have stable : Stable readIndex := readNatural_stable _ _
      exact carries_variant (by decide) rfl ((readPair_stable stable stable).bind fun _ => stable_value _)
        ((carries_pair stable stable (carries_index first) (carries_index second)).map
          (readPair_stable stable stable) fun p => EdgeKey.ring p.1 p.2)

theorem carries_target {target : Cue.Target} (fits : ∀ i ∈ target.indices, i ≤ indexLimit) :
    Carries readTarget target.toJson target := by
  cases target with
  | node key =>
      exact carries_variant (by decide) rfl (stable_map readNodeKey_stable _)
        ((carries_nodeKey fits).map readNodeKey_stable _)
  | edge key =>
      exact carries_variant (by decide) rfl (stable_map readEdgeKey_stable _)
        ((carries_edgeKey fits).map readEdgeKey_stable _)

/-- A cue is carried with the start that is read back. -/
theorem carries_cue {c : Cue} {start : Float} (fits : ∀ i ∈ c.target.indices, i ≤ indexLimit)
    (read : reread c.start = some start) : Carries readCue c.toJson { c with start } := by
  have fills : Fills cueMembers ([("target", c.target.toJson), ("start", .float c.start)].map written)
      ["target", "start"] ⟨.node (.ring 0), 0⟩ { c with start } :=
    .cons ((carries_target fits).fits (f := fun t c => { c with target := t }) readTarget_stable
      (by decide) rfl)
    (.cons ((carries_float read).fits (f := fun x c => { c with start := x }) readFloat_stable
      (by decide) rfl) .nil)
  exact carries_record fills cueMembers_stable (by decide) (.inr (by decide))

/-! ### Records with a schema -/

/-- A record with a schema is carried by the values of all of its fields. -/
theorem Schema.Lawful.carries {σ : Type} {sch : Schema σ} (lawful : sch.Lawful) {start s : σ}
    {expected : String} (value : sch.Field → Json.Value) (distinct : (sch.fields.map sch.name).Nodup)
    (plain : ∀ f, IsPlainText (sch.name f)) (carried : ∀ f, Carries (sch.read f) (value f) (sch.get f s)) :
    Carries (readRecord expected .overriding sch.members start)
      (.object (sch.fields.map fun f => (sch.name f, value f))) s := by
  let settings : List sch.Setting := sch.fields.map fun f => ⟨f, sch.get f s⟩
  have names : sch.names settings = sch.fields.map sch.name := by
    simp [settings, names, Function.comp_def]
  have writes : List.Forall₂ sch.Writes ((sch.fields.map fun f => (sch.name f, value f)).map written) settings := by
    rw [List.map_map, List.forall₂_map_left_iff, List.forall₂_map_right_iff, List.forall₂_same]
    exact fun f _ => ⟨document_quote (plain f), (carried f).document⟩
  -- All fields are set, so that nothing of the start is left.
  have whole : putAll sch start settings = s := by
    refine lawful.ext fun f => ?_
    have member : (⟨f, sch.get f s⟩ : sch.Setting) ∈ settings :=
      List.mem_map.2 ⟨f, lawful.mem_fields f, rfl⟩
    exact lawful.get_putAll_of_mem (names ▸ distinct) member
  have fills : Fills sch.members _ (sch.names settings) start (putAll sch start settings) :=
    lawful.fills writes
  rw [names, whole] at fills
  exact carries_record fills lawful.members_stable distinct (.inl rfl)

theorem carries_colors (colors : List Color) :
    Carries (readList readColor) (.list (colors.map Color.toJson)) colors := by
  refine carries_list readColor_stable ?_
  rw [List.forall₂_map_left_iff, List.forall₂_same]
  exact fun c _ => carries_color c

/-- What the fields of a palette are in a document. -/
def Palette.fieldJson (p : Palette) : Palette.Field → Value
  | .ring => .list (p.ring.map Color.toJson)
  | .neutral => p.neutral.toJson
  | .highlight => p.highlight.toJson

theorem carries_palette (p : Palette) : Carries readPalette p.toJson p := by
  refine Palette.schema_lawful.carries p.fieldJson (by decide) ?_ ?_
  · intro f
    cases f <;> decide
  · intro f
    cases f with
    | ring => exact carries_colors p.ring
    | neutral => exact carries_color p.neutral
    | highlight => exact carries_color p.highlight

/-- What the durations of a flash are in a document. -/
def Ramps.fieldJson (r : Ramps) : Ramps.Field → Value
  | .rampIn => .float r.rampIn
  | .rampOut => .float r.rampOut

theorem carries_ramps {r r' : Ramps} (rampIn : reread r.rampIn = some r'.rampIn)
    (rampOut : reread r.rampOut = some r'.rampOut) : Carries readRamps r.toJson r' := by
  refine Ramps.schema_lawful.carries r.fieldJson (by decide) ?_ ?_
  · intro f
    cases f <;> decide
  · intro f
    cases f with
    | rampIn => exact carries_float rampIn
    | rampOut => exact carries_float rampOut

/-! ### Designs -/

namespace Design

/-- The floats of a design. -/
def floats (d : Design) : List Float :=
  [d.center.x, d.center.y, d.nodeRadius, d.ringRadius, d.fanDistance, d.edgeWidth, d.flash.rampIn,
    d.flash.rampOut] ++ d.script.map Cue.start

/-- A design with others in place of its floats. -/
def mapFloats (f : Float → Float) (d : Design) : Design :=
  { d with
    center := ⟨f d.center.x, f d.center.y⟩
    nodeRadius := f d.nodeRadius
    ringRadius := f d.ringRadius
    fanDistance := f d.fanDistance
    edgeWidth := f d.edgeWidth
    flash := ⟨f d.flash.rampIn, f d.flash.rampOut⟩
    script := d.script.map fun c => { c with start := f c.start } }

/-- The ring indices in the script are ones that documents can hold. -/
def IndicesFit (d : Design) : Prop :=
  ∀ c ∈ d.script, ∀ i ∈ c.target.indices, i ≤ indexLimit

instance (d : Design) : Decidable d.IndicesFit :=
  inferInstanceAs (Decidable (∀ c ∈ d.script, ∀ i ∈ c.target.indices, i ≤ indexLimit))

variable {d : Design}

theorem mapFloats_eq_self_iff {f : Float → Float} : d.mapFloats f = d ↔ ∀ x ∈ d.floats, f x = x := by
  have script : d.script.map (fun c => { c with start := f c.start }) = d.script ↔
      ∀ x ∈ d.script.map Cue.start, f x = x := by
    have unchanged : d.script.map (fun c => { c with start := f c.start }) = d.script.map id ↔
        ∀ c ∈ d.script, { c with start := f c.start } = id c := List.map_inj_left
    rw [List.map_id] at unchanged
    rw [unchanged, List.forall_mem_map]
    refine forall₂_congr fun c _ => ?_
    cases c
    simp
  simp only [floats, List.forall_mem_append, ← script]
  obtain ⟨canvas, ⟨x, y⟩, nodes, ring, fans, edges, palette, ⟨rampIn, rampOut⟩, policy, cues⟩ := d
  simp only [mapFloats, Design.mk.injEq, Point.mk.injEq, Ramps.mk.injEq, List.forall_mem_cons]
  tauto

theorem Sound.isFinite_of_mem (sound : d.Sound) : ∀ x ∈ d.floats, x.isFinite := by
  have starts : ∀ x ∈ d.script.map Cue.start, x.isFinite := by
    rw [List.forall_mem_map]
    intro c member
    have startTime := sound.starts c member
    rw [isStartTime, Bool.and_eq_true] at startTime
    exact startTime.1
  simp only [floats, List.forall_mem_append, List.forall_mem_cons]
  exact ⟨⟨sound.center.1, sound.center.2, sound.nodeRadius.1, sound.ringRadius.1, sound.fanDistance.1,
    sound.edgeWidth.1, sound.rampIn.1, sound.rampOut.1, List.forall_mem_nil _⟩, starts⟩

theorem carries_script {cues : List Cue} (finite : ∀ c ∈ cues, c.start.isFinite)
    (fits : ∀ c ∈ cues, ∀ i ∈ c.target.indices, i ≤ indexLimit) :
    Carries (readList readCue) (scriptToJson cues)
      (cues.map fun c => { c with start := reloaded c.start }) := by
  refine carries_list readCue_stable ?_
  rw [List.forall₂_map_left_iff, List.forall₂_map_right_iff, List.forall₂_same]
  exact fun c member => carries_cue (fits c member) (rereads_reloaded (finite c member)).read

/-- What the fields of a design are in a document. -/
def fieldJson (d : Design) : Field → Value
  | .canvas => d.canvas.toJson
  | .center => d.center.toJson
  | .nodeRadius => .float d.nodeRadius
  | .ringRadius => .float d.ringRadius
  | .fanDistance => .float d.fanDistance
  | .edgeWidth => .float d.edgeWidth
  | .palette => d.palette.toJson
  | .flash => d.flash.toJson
  | .loopPolicy => d.loopPolicy.toJson
  | .script => scriptToJson d.script

/-- A design is carried with the floats that are read back. -/
theorem carries (finite : ∀ x ∈ d.floats, x.isFinite) (fits : d.IndicesFit) :
    Carries readDesign d.toJson (d.mapFloats reloaded) := by
  simp only [floats, List.forall_mem_append, List.forall_mem_cons] at finite
  obtain ⟨⟨x, y, nodes, ring, fans, edges, rampIn, rampOut, _⟩, starts⟩ := finite
  refine schema_lawful.carries d.fieldJson (by decide) ?_ ?_
  · intro f
    cases f <;> decide
  · intro f
    cases f with
    | canvas => exact carries_canvas d.canvas
    | center => exact carries_point (rereads_reloaded x).read (rereads_reloaded y).read
    | nodeRadius => exact carries_float (rereads_reloaded nodes).read
    | ringRadius => exact carries_float (rereads_reloaded ring).read
    | fanDistance => exact carries_float (rereads_reloaded fans).read
    | edgeWidth => exact carries_float (rereads_reloaded edges).read
    | palette => exact carries_palette d.palette
    | flash => exact carries_ramps (rereads_reloaded rampIn).read (rereads_reloaded rampOut).read
    | loopPolicy => exact carries_loopPolicy d.loopPolicy
    | script => exact carries_script (List.forall_mem_map.1 starts) fits

/-- A design that passes the check is read from what it is written as, with every float as it is read back:
finite and close to what it was, and the same if its digits are few and its power of ten is small. So it is
read as itself just if all of its floats are. -/
theorem ofJson_toJson (passed : d.validate = .ok ()) (fits : d.IndicesFit) :
    ofJson (Text.encode d.toJson.compact) = .ok (d.mapFloats reloaded) ∧
    (∀ x ∈ d.floats, Rereads x (reloaded x)) ∧
    (d.mapFloats reloaded = d ↔ ∀ x ∈ d.floats, reread x = some x) := by
  have finite := (validate_eq_ok_iff.1 passed).isFinite_of_mem
  refine ⟨?_, fun x member => rereads_reloaded (finite x member), ?_⟩
  · rw [ofJson, (carries finite fits).document]
  · rw [mapFloats_eq_self_iff]
    exact forall₂_congr fun x member => reloaded_eq_iff (finite x member)

theorem ofJson_toJson_standard : standard.validate = .ok () ∧ standard.IndicesFit ∧
    ofJson (Text.encode standard.toJson.compact) = .ok (standard.mapFloats reloaded) ∧
    (∀ x ∈ standard.floats, Rereads x (reloaded x)) ∧
    (standard.mapFloats reloaded = standard ↔ ∀ x ∈ standard.floats, reread x = some x) :=
  ⟨rfl, by decide, ofJson_toJson rfl (by decide)⟩

/-- The standard design with fans a third of a unit further out. -/
def thirdFurther : Design :=
  { standard with fanDistance := 90.33333333333333 }

/-- Its fans are read at another distance, since the sixteen digits make more than `2 ^ 53`. -/
theorem ofJson_thirdFurther : thirdFurther.validate = .ok () ∧ thirdFurther.IndicesFit ∧
    ofJson (Text.encode thirdFurther.toJson.compact) =
      .ok { standard with fanDistance := 90.33333333333331 } ∧
    { standard with fanDistance := 90.33333333333331 } ≠ thirdFurther := by
  refine ⟨rfl, by decide, ?_, by decide +kernel⟩
  have finite := (validate_eq_ok_iff.1 (rfl : thirdFurther.validate = .ok ())).isFinite_of_mem
  have loaded : thirdFurther.mapFloats reloaded = { standard with fanDistance := 90.33333333333331 } := by
    decide +kernel
  rw [ofJson, (carries finite (by decide)).document, loaded]

end Design

end Emblem
