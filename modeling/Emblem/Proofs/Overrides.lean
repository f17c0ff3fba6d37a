/-
Module: Emblem.Proofs.Overrides
Purpose: Documents that name some members of a record override these and nothing else, in whatever order
  they stand. This holds of designs, of their palettes and of their durations, and at each of these levels
  a name that is unknown or repeated has the whole document refused.
Main exports: Schema, Schema.Gives, Overrides, Design.schema, Palette.schema, Ramps.schema,
  Design.Offends, Design.ofJson_overrides, Design.ofJson_overrides_redHighlight
-/
import Emblem.Codec.Design
import Emblem.Proofs.ObjectTexts
import Emblem.Proofs.Outcome
import Emblem.Text.Utf8
import Mathlib.Data.List.Forall2

namespace Emblem

open Json
open Text (encode)

variable {σ : Type}

/-! ### Schemas -/

/-- The fields of a record: their names, the readers of their values, and their places in the record. -/
structure Schema (σ : Type) where
  Field : Type
  Value : Field → Type
  fields : List Field
  name : Field → String
  read : (f : Field) → Reader (Value f)
  get : (f : Field) → σ → Value f
  put : (f : Field) → Value f → σ → σ

namespace Schema

/-- A field with a value for it. -/
structure Setting (sch : Schema σ) where
  field : sch.Field
  value : sch.Value field

/-- The fields as members of a record to be read. -/
def members (sch : Schema σ) : List (Member σ) :=
  sch.fields.map fun f => ⟨sch.name f, fun s => return sch.put f (← sch.read f) s⟩

/-- Fields are told apart by their names and have places of their own, which make up the record; their
values are read stably. -/
structure Lawful (sch : Schema σ) : Prop where
  mem_fields : ∀ f, f ∈ sch.fields
  name_injective : Function.Injective sch.name
  stable : ∀ f, Stable (sch.read f)
  get_put : ∀ f v s, sch.get f (sch.put f v s) = v
  get_put_of_ne : ∀ {f g}, f ≠ g → ∀ v s, sch.get g (sch.put f v s) = sch.get g s
  ext : ∀ {s t}, (∀ f, sch.get f s = sch.get f t) → s = t

variable (sch : Schema σ)

/-- A member as written gives a field its value. -/
structure Writes (w : Written) (i : sch.Setting) : Prop where
  name : readText.document w.name = .ok (sch.name i.field)
  value : (sch.read i.field).document w.value = .ok i.value

def names (settings : List sch.Setting) : List String :=
  settings.map fun i => sch.name i.field

/-- The octets are an object that gives each of these fields its value, none of them twice. -/
structure Gives (octets : List UInt8) (settings : List sch.Setting) : Prop where
  distinct : (sch.names settings).Nodup
  object : ∃ (o : ObjectStart) (after : List UInt8), octets = o.closed after ∧ Blank after ∧
    List.Forall₂ sch.Writes o.members settings

/-- The octets begin as such an object does and go on with a name, a colon and anything else. -/
structure GoesOn (octets : List UInt8) (settings : List sch.Setting) (name : String)
    (rest : List UInt8) : Prop where
  distinct : (sch.names settings).Nodup
  object : ∃ (o : ObjectStart) (key : List UInt8), octets = o.followed key rest ∧
    List.Forall₂ sch.Writes o.members settings ∧ readText.document key = .ok name

/-- The octets begin as such an object does and go on with a name that is unknown or was given before. -/
def Misnames (octets : List UInt8) : Prop :=
  ∃ settings name rest, sch.GoesOn octets settings name rest ∧
    (name ∈ sch.names settings ∨ ∀ f, sch.name f ≠ name)

end Schema

/-- From objects that give fields their values a record is read that has these values, and those of `start`
in all other fields; the order of the fields makes no difference. -/
structure Overrides {ε : Type} (sch : Schema σ) (read : List UInt8 → Except ε σ) (start : σ) : Prop where
  reads : ∀ octets settings, sch.Gives octets settings → ∃ s, read octets = .ok s ∧
    (∀ i ∈ settings, sch.get i.field s = i.value) ∧
    ∀ f, sch.name f ∉ sch.names settings → sch.get f s = sch.get f start
  order : ∀ octets octets' settings settings', sch.Gives octets settings →
    sch.Gives octets' settings' → settings.Perm settings' → read octets = read octets'

namespace Schema.Lawful

variable {sch : Schema σ} (lawful : sch.Lawful)

/-- The record with these values for their fields. -/
def putAll (sch : Schema σ) (s : σ) (settings : List sch.Setting) : σ :=
  settings.foldl (fun s i => sch.put i.field i.value s) s

section Values

variable {settings settings' : List sch.Setting} {s : σ}

include lawful

theorem get_putAll_of_notMem {f : sch.Field} (absent : sch.name f ∉ sch.names settings) :
    sch.get f (putAll sch s settings) = sch.get f s := by
  induction settings generalizing s with
  | nil => rfl
  | cons i rest ih =>
      have different : i.field ≠ f := by
        rintro rfl
        exact absent List.mem_cons_self
      have later : sch.name f ∉ sch.names rest := fun member => absent (List.mem_cons_of_mem _ member)
      exact (ih later).trans (lawful.get_put_of_ne different _ _)

theorem get_putAll_of_mem (distinct : (sch.names settings).Nodup) {i : sch.Setting} (member : i ∈ settings) :
    sch.get i.field (putAll sch s settings) = i.value := by
  induction settings generalizing s with
  | nil => cases member
  | cons j rest ih =>
      obtain ⟨absent, distinct⟩ := List.nodup_cons.1 distinct
      rcases List.mem_cons.1 member with rfl | member
      · exact (lawful.get_putAll_of_notMem absent).trans (lawful.get_put _ _ _)
      · exact ih distinct member

/-- Fields have their values whatever the order of the settings. -/
theorem putAll_perm (distinct : (sch.names settings).Nodup) (perm : settings.Perm settings') :
    putAll sch s settings = putAll sch s settings' := by
  have names : (sch.names settings).Perm (sch.names settings') := perm.map _
  refine lawful.ext fun f => ?_
  by_cases given : sch.name f ∈ sch.names settings
  · obtain ⟨i, member, same⟩ := List.mem_map.1 given
    obtain rfl := lawful.name_injective same
    rw [lawful.get_putAll_of_mem distinct member,
      lawful.get_putAll_of_mem (names.nodup_iff.1 distinct) (perm.mem_iff.1 member)]
  · rw [lawful.get_putAll_of_notMem given,
      lawful.get_putAll_of_notMem fun member => given (names.mem_iff.2 member)]

end Values

/-! ### Reading by a schema -/

section Reading

variable {o : ObjectStart} {settings : List sch.Setting} {expected : String} {start : σ}

include lawful

theorem members_stable : ∀ m ∈ sch.members, ∀ s, Stable (m.read s) := by
  intro m member s
  obtain ⟨f, _, rfl⟩ := List.mem_map.1 member
  exact stable_map (lawful.stable f) _

theorem find?_members (f : sch.Field) : sch.members.find? (·.name == sch.name f) =
    some ⟨sch.name f, fun s => return sch.put f (← sch.read f) s⟩ := by
  have there := lawful.mem_fields f
  unfold members
  generalize sch.fields = fields at there
  induction fields with
  | nil => cases there
  | cons g rest ih =>
      rw [List.map_cons, List.find?_cons]
      by_cases same : g = f
      · subst same
        simp
      · have different : (sch.name g == sch.name f) = false :=
          beq_eq_false_iff_ne.2 fun named => same (lawful.name_injective named)
        rw [different]
        exact ih ((List.mem_cons.1 there).resolve_left fun here => same here.symm)

theorem fills {ws : List Written} (written : List.Forall₂ sch.Writes ws settings) :
    Fills sch.members ws (sch.names settings) start (putAll sch start settings) := by
  induction written generalizing start with
  | nil => exact .nil
  | @cons w i _ _ here _ ih =>
      refine .cons ⟨here.name, _, lawful.find?_members i.field, ?_⟩ ih
      exact (lawful.stable i.field).document_map here.value _

/-- A record with a schema is overridden by objects. -/
theorem overrides {ε : Type} {read : List UInt8 → Except ε σ}
    (reads : ∀ octets s, (readRecord expected .overriding sch.members start).document octets = .ok s →
      read octets = .ok s) : Overrides sch read start := by
  have object : ∀ {octets settings}, sch.Gives octets settings →
      read octets = .ok (putAll sch start settings) := by
    rintro octets settings ⟨distinct, o, after, rfl, blank, written⟩
    refine reads _ _ (document_of_reads ?_ blank)
    exact ObjectStart.reads_record (lawful.fills written) lawful.members_stable distinct (.inl rfl) after
  constructor
  · intro octets settings gives
    refine ⟨_, object gives, ?_, ?_⟩
    · exact fun i member => lawful.get_putAll_of_mem gives.distinct member
    · exact fun f absent => lawful.get_putAll_of_notMem absent
  · intro octets octets' settings settings' gives gives' perm
    rw [object gives, object gives', lawful.putAll_perm gives.distinct perm]

/-- It is refused for a name that is unknown or was given before. -/
theorem refuses_misnamed {octets : List UInt8} (misnamed : sch.Misnames octets) :
    (readRecord expected .overriding sch.members start).Refuses octets := by
  obtain ⟨settings, name, rest, ⟨distinct, o, key, rfl, written, named⟩, bad⟩ := misnamed
  refine ObjectStart.refuses_name (lawful.fills written) lawful.members_stable distinct named ?_ rest
  refine bad.imp_right fun unknown => ⟨rfl, ?_⟩
  intro member
  obtain ⟨m, inside, same⟩ := List.mem_map.1 member
  obtain ⟨f, _, rfl⟩ := List.mem_map.1 inside
  exact unknown f same

/-- And for a field whose value is refused. -/
theorem refuses_field {octets rest : List UInt8} {f : sch.Field}
    (goesOn : sch.GoesOn octets settings (sch.name f) rest) (refuses : (sch.read f).Refuses rest) :
    (readRecord expected .overriding sch.members start).Refuses octets := by
  obtain ⟨distinct, o, key, rfl, written, named⟩ := goesOn
  exact ObjectStart.refuses_value (lawful.fills written) lawful.members_stable distinct named
    (lawful.find?_members f) refuses.bind

end Reading

end Schema.Lawful

/-! ### The readers of a design's values -/

theorem readColor_stable : Stable readColor := by
  refine readText_stable.bind fun text => ?_
  split
  · exact stable_value _
  · exact stable_failOpen _

theorem canvasMembers_stable : ∀ m ∈ canvasMembers, ∀ s, Stable (m.read s) :=
  setters_stable_cons (readNatural_stable _ _) <|
    setters_stable_cons (readNatural_stable _ _) (List.forall_mem_nil _)

theorem readCanvas_stable : Stable readCanvas :=
  readRecord_stable canvasMembers_stable _ _ _

theorem pointMembers_stable : ∀ m ∈ pointMembers, ∀ s, Stable (m.read s) :=
  setters_stable_cons readFloat_stable (setters_stable_cons readFloat_stable (List.forall_mem_nil _))

theorem readPoint_stable : Stable readPoint :=
  readRecord_stable pointMembers_stable _ _ _

theorem readSide_stable : Stable readSide :=
  readVariant_constants_stable _ _

theorem readNodeKey_stable : Stable readNodeKey := by
  apply readVariant_pair_stable
  · exact Variant.single_stable _ (stable_map (readNatural_stable _ _) _)
  · exact Variant.single_stable _ (stable_map readSide_stable _)

theorem readEdgeKey_stable : Stable readEdgeKey := by
  have index : Stable readIndex := readNatural_stable _ _
  apply readVariant_pair_stable
  · exact Variant.single_stable _ (stable_map readSide_stable _)
  · exact Variant.tuple_stable _ ((readPair_stable index index).bind fun _ => stable_value _)

theorem readTarget_stable : Stable readTarget := by
  apply readVariant_pair_stable
  · exact Variant.single_stable _ (stable_map readNodeKey_stable _)
  · exact Variant.single_stable _ (stable_map readEdgeKey_stable _)

theorem cueMembers_stable : ∀ m ∈ cueMembers, ∀ s, Stable (m.read s) :=
  setters_stable_cons readTarget_stable (setters_stable_cons readFloat_stable (List.forall_mem_nil _))

theorem readCue_stable : Stable readCue :=
  readRecord_stable cueMembers_stable _ _ _

theorem readLoopPolicy_stable : Stable readLoopPolicy :=
  readVariant_constants_stable _ _

/-! ### Palettes and durations -/

inductive Palette.Field where
  | ring
  | neutral
  | highlight
deriving DecidableEq, Repr

def Palette.Field.all : List Palette.Field :=
  [.ring, .neutral, .highlight]

theorem Palette.Field.mem_all (f : Palette.Field) : f ∈ all := by
  cases f <;> decide

/-- The fields of a palette. -/
def Palette.schema : Schema Palette where
  Field := Palette.Field
  Value
    | .ring => List Color
    | .neutral | .highlight => Color
  fields := Palette.Field.all
  name
    | .ring => "ring"
    | .neutral => "neutral"
    | .highlight => "highlight"
  read
    | .ring => readList readColor
    | .neutral | .highlight => readColor
  get
    | .ring, p => p.ring
    | .neutral, p => p.neutral
    | .highlight, p => p.highlight
  put
    | .ring, v, p => { p with ring := v }
    | .neutral, v, p => { p with neutral := v }
    | .highlight, v, p => { p with highlight := v }

theorem Palette.schema_members : Palette.schema.members = paletteMembers := rfl

theorem Palette.schema_lawful : Palette.schema.Lawful where
  mem_fields := Palette.Field.mem_all
  name_injective := by
    intro f g same
    revert same
    cases f <;> cases g <;> simp [Palette.schema]
  stable f := by
    cases f with
    | ring => exact readList_stable readColor_stable
    | neutral => exact readColor_stable
    | highlight => exact readColor_stable
  get_put f v s := by cases f <;> rfl
  get_put_of_ne := by
    intro f g different v s
    cases f <;> cases g <;> first | rfl | exact absurd rfl different
  ext := by
    intro s t same
    cases s
    cases t
    simpa [Palette.schema] using And.intro (same .ring) ⟨same .neutral, same .highlight⟩

inductive Ramps.Field where
  | rampIn
  | rampOut
deriving DecidableEq, Repr

def Ramps.Field.all : List Ramps.Field :=
  [.rampIn, .rampOut]

theorem Ramps.Field.mem_all (f : Ramps.Field) : f ∈ all := by
  cases f <;> decide

/-- The fields of the durations of a flash. -/
def Ramps.schema : Schema Ramps where
  Field := Ramps.Field
  Value _ := Float
  fields := Ramps.Field.all
  name
    | .rampIn => "ramp_in_secs"
    | .rampOut => "ramp_out_secs"
  read _ := readFloat
  get
    | .rampIn, r => r.rampIn
    | .rampOut, r => r.rampOut
  put
    | .rampIn, v, r => { r with rampIn := v }
    | .rampOut, v, r => { r with rampOut := v }

theorem Ramps.schema_members : Ramps.schema.members = rampsMembers := rfl

theorem Ramps.schema_lawful : Ramps.schema.Lawful where
  mem_fields := Ramps.Field.mem_all
  name_injective := by
    intro f g same
    revert same
    cases f <;> cases g <;> simp [Ramps.schema]
  stable _ := readFloat_stable
  get_put f v s := by cases f <;> rfl
  get_put_of_ne := by
    intro f g different v s
    cases f <;> cases g <;> first | rfl | exact absurd rfl different
  ext := by
    intro s t same
    cases s
    cases t
    simpa [Ramps.schema] using And.intro (same .rampIn) (same .rampOut)

theorem readPalette_stable : Stable readPalette := by
  rw [readPalette, ← Palette.schema_members]
  exact readRecord_stable Palette.schema_lawful.members_stable _ _ _

theorem readRamps_stable : Stable readRamps := by
  rw [readRamps, ← Ramps.schema_members]
  exact readRecord_stable Ramps.schema_lawful.members_stable _ _ _

/-! ### Designs -/

namespace Design

inductive Field where
  | canvas
  | center
  | nodeRadius
  | ringRadius
  | fanDistance
  | edgeWidth
  | palette
  | flash
  | loopPolicy
  | script
deriving DecidableEq, Repr

def Field.all : List Field :=
  [.canvas, .center, .nodeRadius, .ringRadius, .fanDistance, .edgeWidth, .palette, .flash, .loopPolicy,
    .script]

theorem Field.mem_all (f : Field) : f ∈ all := by
  cases f <;> decide

/-- The fields of a design. -/
def schema : Schema Design where
  Field := Design.Field
  Value
    | .canvas => Canvas
    | .center => Point
    | .nodeRadius | .ringRadius | .fanDistance | .edgeWidth => Float
    | .palette => Palette
    | .flash => Ramps
    | .loopPolicy => LoopPolicy
    | .script => List Cue
  fields := Field.all
  name
    | .canvas => "canvas"
    | .center => "center"
    | .nodeRadius => "node_radius"
    | .ringRadius => "ring_radius"
    | .fanDistance => "fan_distance"
    | .edgeWidth => "edge_width"
    | .palette => "palette"
    | .flash => "flash"
    | .loopPolicy => "loop_terminal"
    | .script => "script"
  read
    | .canvas => readCanvas
    | .center => readPoint
    | .nodeRadius | .ringRadius | .fanDistance | .edgeWidth => readFloat
    | .palette => readPalette
    | .flash => readRamps
    | .loopPolicy => readLoopPolicy
    | .script => readList readCue
  get
    | .canvas, d => d.canvas
    | .center, d => d.center
    | .nodeRadius, d => d.nodeRadius
    | .ringRadius, d => d.ringRadius
    | .fanDistance, d => d.fanDistance
    | .edgeWidth, d => d.edgeWidth
    | .palette, d => d.palette
    | .flash, d => d.flash
    | .loopPolicy, d => d.loopPolicy
    | .script, d => d.script
  put
    | .canvas, v, d => { d with canvas := v }
    | .center, v, d => { d with center := v }
    | .nodeRadius, v, d => { d with nodeRadius := v }
    | .ringRadius, v, d => { d with ringRadius := v }
    | .fanDistance, v, d => { d with fanDistance := v }
    | .edgeWidth, v, d => { d with edgeWidth := v }
    | .palette, v, d => { d with palette := v }
    | .flash, v, d => { d with flash := v }
    | .loopPolicy, v, d => { d with loopPolicy := v }
    | .script, v, d => { d with script := v }

theorem schema_members : schema.members = designMembers := rfl

theorem schema_lawful : schema.Lawful where
  mem_fields := Field.mem_all
  name_injective := by
    intro f g same
    revert same
    cases f <;> cases g <;> simp [schema]
  stable f := by
    cases f with
    | canvas => exact readCanvas_stable
    | center => exact readPoint_stable
    | nodeRadius => exact readFloat_stable
    | ringRadius => exact readFloat_stable
    | fanDistance => exact readFloat_stable
    | edgeWidth => exact readFloat_stable
    | palette => exact readPalette_stable
    | flash => exact readRamps_stable
    | loopPolicy => exact readLoopPolicy_stable
    | script => exact readList_stable readCue_stable
  get_put f v s := by cases f <;> rfl
  get_put_of_ne := by
    intro f g different v s
    cases f <;> cases g <;> first | rfl | exact absurd rfl different
  ext := by
    intro s t same
    cases s
    cases t
    simp only [Design.mk.injEq]
    exact ⟨same .canvas, same .center, same .nodeRadius, same .ringRadius, same .fanDistance,
      same .edgeWidth, same .palette, same .flash, same .loopPolicy, same .script⟩

/-- A document that names something unknown or repeats a name: among the fields of the design, among those
of its palette, or among those of its durations. -/
inductive Offends (octets : List UInt8) : Prop where
  | design (misnamed : schema.Misnames octets)
  | palette {settings : List schema.Setting} {value : List UInt8}
      (goesOn : schema.GoesOn octets settings "palette" value)
      (misnamed : Palette.schema.Misnames value)
  | flash {settings : List schema.Setting} {value : List UInt8}
      (goesOn : schema.GoesOn octets settings "flash" value) (misnamed : Ramps.schema.Misnames value)

theorem Offends.refuses {octets : List UInt8} (offends : Offends octets) : readDesign.Refuses octets := by
  rw [readDesign, ← schema_members]
  cases offends with
  | design misnamed => exact schema_lawful.refuses_misnamed misnamed
  | palette goesOn misnamed =>
      exact schema_lawful.refuses_field (f := .palette) goesOn
        (Palette.schema_lawful.refuses_misnamed misnamed)
  | flash goesOn misnamed =>
      exact schema_lawful.refuses_field (f := .flash) goesOn
        (Ramps.schema_lawful.refuses_misnamed misnamed)

/-- Documents override the standard design, objects of palettes and durations the standard ones of these,
and nothing else; a name that is unknown or repeated at any of the three levels is refused. -/
theorem ofJson_overrides :
    Overrides schema ofJson standard ∧
    Overrides Palette.schema readPalette.document .standard ∧
    Overrides Ramps.schema readRamps.document .standard ∧
    ∀ octets, Offends octets → ∃ e reason, ofJson octets = .error e ∧ e.stage? = some .validation ∧
      e.detail = "parse logo config JSON: " ++ reason := by
  refine ⟨?_, ?_, ?_, ?_⟩
  · have read : ∀ octets d, readDesign.document octets = .ok d → ofJson octets = .ok d := by
      intro octets d document
      rw [ofJson, document]
    exact schema_lawful.overrides read
  · exact Palette.schema_lawful.overrides fun _ _ read => read
  · exact Ramps.schema_lawful.overrides fun _ _ read => read
  · intro octets offends
    obtain ⟨fault, refused⟩ := document_of_refuses offends.refuses
    refine ⟨.malformedDesign fault, fault.message, ?_, rfl, rfl⟩
    rw [ofJson, refused]

/-! ### Some documents -/

/-- An object with no space but that around its members. -/
def objectOf (members : List Written) : ObjectStart :=
  ⟨[], [], members, blank_nil, blank_nil⟩

def ringRadius40 : schema.Setting :=
  ⟨.ringRadius, (40 : Float)⟩

def writtenRingRadius : Written :=
  ⟨encode " \"ring_radius\"", encode " 40.0"⟩

theorem writes_ringRadius : schema.Writes writtenRingRadius ringRadius40 where
  name := toOption_eq_some_iff.1 (by decide +kernel)
  value := by
    have value : (readFloat.document writtenRingRadius.value).toOption = some 40 := by decide +kernel
    exact toOption_eq_some_iff.1 value

/-- The standard palette with a red highlight. -/
def redHighlight : Palette :=
  { Palette.standard with highlight := ⟨255, 0, 0⟩ }

def paletteRed : schema.Setting :=
  ⟨.palette, redHighlight⟩

/-- The palette's document names the highlight only. -/
def writtenPalette : Written :=
  ⟨encode " \"palette\"", encode "\x7b \"highlight\": \"#ff0000\"\x7d"⟩

theorem writes_palette : schema.Writes writtenPalette paletteRed where
  name := toOption_eq_some_iff.1 (by decide +kernel)
  value := by
    have value : (readPalette.document writtenPalette.value).toOption = some redHighlight := by
      decide +kernel
    exact toOption_eq_some_iff.1 value

/-- The highlight by itself, in that document. -/
theorem gives_highlight :
    Palette.schema.Gives writtenPalette.value [⟨.highlight, (⟨255, 0, 0⟩ : Color)⟩] where
  distinct := by decide
  object := by
    have value : (readColor.document (encode " \"#ff0000\"")).toOption = some ⟨255, 0, 0⟩ := by
      decide +kernel
    have writes : Palette.schema.Writes ⟨encode " \"highlight\"", encode " \"#ff0000\""⟩
        ⟨.highlight, (⟨255, 0, 0⟩ : Color)⟩ :=
      ⟨toOption_eq_some_iff.1 (by decide +kernel), toOption_eq_some_iff.1 value⟩
    exact ⟨objectOf [_], [], by decide +kernel, blank_nil, .cons writes .nil⟩

/-- A ring radius and a palette. -/
def radiusFirst : List UInt8 :=
  encode "\x7b \"ring_radius\": 40.0, \"palette\":\x7b \"highlight\": \"#ff0000\"\x7d\x7d"

def paletteFirst : List UInt8 :=
  encode "\x7b \"palette\":\x7b \"highlight\": \"#ff0000\"\x7d, \"ring_radius\": 40.0\x7d"

theorem gives_radiusFirst : schema.Gives radiusFirst [ringRadius40, paletteRed] where
  distinct := by decide
  object := ⟨objectOf [writtenRingRadius, writtenPalette], [], by decide +kernel, blank_nil,
    .cons writes_ringRadius (.cons writes_palette .nil)⟩

theorem gives_paletteFirst : schema.Gives paletteFirst [paletteRed, ringRadius40] where
  distinct := by decide
  object := ⟨objectOf [writtenPalette, writtenRingRadius], [], by decide +kernel, blank_nil,
    .cons writes_palette (.cons writes_ringRadius .nil)⟩

/-- A name that no design has. -/
def misnamed : List UInt8 :=
  encode "\x7b \"radius\": 40.0\x7d"

theorem offends_misnamed : Offends misnamed := by
  have goesOn : schema.GoesOn misnamed [] "radius" (encode " 40.0\x7d") :=
    ⟨.nil, objectOf [], encode " \"radius\"", by decide +kernel, .nil,
      toOption_eq_some_iff.1 (by decide +kernel)⟩
  refine .design ⟨_, _, _, goesOn, .inr fun f => ?_⟩
  cases f <;> decide

/-- Durations, the first of which is given twice. -/
def repeatedRamp : List UInt8 :=
  encode "\x7b \"flash\":\x7b \"ramp_in_secs\": 1, \"ramp_in_secs\": 2\x7d\x7d"

theorem offends_repeatedRamp : Offends repeatedRamp := by
  have goesOn : schema.GoesOn repeatedRamp [] "flash"
      (encode "\x7b \"ramp_in_secs\": 1, \"ramp_in_secs\": 2\x7d\x7d") :=
    ⟨.nil, objectOf [], encode " \"flash\"", by decide +kernel, .nil,
      toOption_eq_some_iff.1 (by decide +kernel)⟩
  have value : (readFloat.document (encode " 1")).toOption = some 1 := by decide +kernel
  have writes : Ramps.schema.Writes ⟨encode " \"ramp_in_secs\"", encode " 1"⟩ ⟨.rampIn, (1 : Float)⟩ :=
    ⟨toOption_eq_some_iff.1 (by decide +kernel), toOption_eq_some_iff.1 value⟩
  have again : Ramps.schema.GoesOn (encode "\x7b \"ramp_in_secs\": 1, \"ramp_in_secs\": 2\x7d\x7d")
      [⟨.rampIn, (1 : Float)⟩] "ramp_in_secs" (encode " 2\x7d\x7d") :=
    ⟨by decide, objectOf [_], encode " \"ramp_in_secs\"", by decide +kernel, .cons writes .nil,
      toOption_eq_some_iff.1 (by decide +kernel)⟩
  exact .flash goesOn ⟨_, _, _, again, .inl (by decide)⟩

/-- Two settings make the same design in either order, and the highlight makes a palette; nothing is made
of a name that is unknown or of a duration that is repeated. -/
theorem ofJson_overrides_redHighlight :
    ofJson radiusFirst = .ok { standard with ringRadius := 40, palette := redHighlight } ∧
    ofJson paletteFirst = .ok { standard with ringRadius := 40, palette := redHighlight } ∧
    readPalette.document writtenPalette.value = .ok redHighlight ∧
    ∀ octets ∈ [misnamed, repeatedRamp], ∃ e reason, ofJson octets = .error e ∧
      e.stage? = some .validation ∧ e.detail = "parse logo config JSON: " ++ reason := by
  obtain ⟨designs, palettes, _, refuses⟩ := ofJson_overrides
  have first : ofJson radiusFirst = .ok { standard with ringRadius := 40, palette := redHighlight } := by
    obtain ⟨d, read, given, others⟩ := designs.reads _ _ gives_radiusFirst
    have whole : d = { standard with ringRadius := 40, palette := redHighlight } := by
      refine schema_lawful.ext fun f => ?_
      cases f with
      | ringRadius => exact given ringRadius40 (by simp)
      | palette => exact given paletteRed (by simp)
      | _ => exact others _ (by decide)
    rw [read, whole]
  refine ⟨first, ?_, ?_, ?_⟩
  · rw [← first]
    exact designs.order _ _ _ _ gives_paletteFirst gives_radiusFirst (.swap _ _ _)
  · obtain ⟨p, read, given, others⟩ := palettes.reads _ _ gives_highlight
    have whole : p = redHighlight := by
      refine Palette.schema_lawful.ext fun f => ?_
      cases f with
      | highlight => exact given _ List.mem_cons_self
      | _ => exact others _ (by decide)
    rw [read, whole]
  · intro octets member
    simp only [List.mem_cons, List.not_mem_nil, or_false] at member
    rcases member with rfl | rfl
    · exact refuses _ offends_misnamed
    · exact refuses _ offends_repeatedRamp

end Design

end Emblem
