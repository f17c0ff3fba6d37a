/-
Module: Emblem.Proofs.VocabularyTexts
Purpose: The texts of targets, palettes, canvases and loop policies. A key is the one member of an object
  that has its kind as a name, and a colour is a mark with six capital digits. All of them are read as what
  they were written from, so that different values have different texts.
Main exports: Json.Faithful, Cue.Target.form, Palette.form, Canvas.form, LoopPolicy.form, vocabulary_faithful
-/
import Emblem.Proofs.ColorSpellings

namespace Emblem

open Json
open Text (encode)

/-! ### Faithful texts -/

/-- The values of a domain are written as these texts, are read back from them, and are told apart by them. -/
structure Json.Faithful {α : Type} (r : Reader α) (toJson : α → Value) (form : α → String)
    (domain : α → Prop) : Prop where
  written : ∀ a, (toJson a).compact = form a
  reread : ∀ a, domain a → r.document (encode (form a)) = .ok a
  distinct : ∀ a b, domain a → domain b → form a = form b → a = b

/-- What is carried by a text has no text in common with anything else that is. -/
theorem Json.faithful_of_carries {α : Type} {r : Reader α} {toJson : α → Value} {form : α → String}
    {domain : α → Prop} (written : ∀ a, (toJson a).compact = form a)
    (carries : ∀ a, domain a → Carries r (toJson a) a) : Faithful r toJson form domain := by
  have reread : ∀ a, domain a → r.document (encode (form a)) = .ok a := by
    intro a inside
    rw [← written]
    exact (carries a inside).document
  refine ⟨written, reread, ?_⟩
  intro a b inside inside' same
  have first := reread a inside
  rw [same, reread b inside'] at first
  exact (Except.ok.inj first).symm

/-! ### Forms -/

namespace Json

/-- Texts in brackets, with commas between them. -/
def listForm (parts : List String) : String :=
  "[" ++ ",".intercalate parts ++ "]"

/-- An object with one member. -/
def taggedForm (tag contents : String) : String :=
  "\x7b\"" ++ tag ++ "\":" ++ contents ++ "\x7d"

end Json

def Side.form : Side → String
  | left => "\"left\""
  | right => "\"right\""

def NodeKey.form : NodeKey → String
  | ring i => taggedForm "ring" (toString i)
  | fan side => taggedForm "fan" side.form

def EdgeKey.form : EdgeKey → String
  | fan side => taggedForm "fan" side.form
  | ring i j => taggedForm "ring" (listForm [toString i, toString j])

def Cue.Target.form : Cue.Target → String
  | node key => taggedForm "node" key.form
  | edge key => taggedForm "edge" key.form

/-- A mark and two capital digits for each channel, in quotes. -/
def Color.form (c : Color) : String :=
  let digits := [c.red, c.green, c.blue].flatMap fun n =>
    [Color.capitals.getD (n.toNat / 16) '?', Color.capitals.getD (n.toNat % 16) '?']
  String.ofList ('"' :: '#' :: digits ++ ['"'])

def Palette.form (p : Palette) : String :=
  "\x7b\"ring\":" ++ listForm (p.ring.map Color.form) ++ ",\"neutral\":" ++ p.neutral.form ++
    ",\"highlight\":" ++ p.highlight.form ++ "\x7d"

def Canvas.form (c : Canvas) : String :=
  "\x7b\"width\":" ++ toString c.width.toNat ++ ",\"height\":" ++ toString c.height.toNat ++ "\x7d"

def LoopPolicy.form : LoopPolicy → String
  | includeTerminal => "\"include\""
  | excludeTerminal => "\"exclude\""

/-! ### What is written -/

section Written

theorem compact_list (vs : List Value) : Value.compact (.list vs) = listForm (vs.map Value.compact) := by
  rw [Value.compact, compactElements_eq]
  rfl

theorem quote_eq {name : String} (plain : IsPlainText name) : quote name = "\"" ++ name ++ "\"" := by
  rw [quote_of_plain plain, ← String.toList_inj]
  simp

/-- An object with one member is written as such. -/
theorem compact_single {tag : String} (plain : IsPlainText tag) (v : Value) :
    Value.compact (.object [(tag, v)]) = taggedForm tag v.compact := by
  rw [Value.compact, compactMembers_eq, List.map_singleton, String.intercalate_singleton, quote_eq plain]
  simp [taggedForm, ← String.toList_inj]

theorem compact_side (side : Side) : side.toJson.compact = side.form := by
  cases side <;> decide +kernel

theorem compact_nodeKey (key : NodeKey) : key.toJson.compact = key.form := by
  cases key with
  | ring i =>
      rw [NodeKey.toJson, compact_single (by decide), Value.compact]
      rfl
  | fan side =>
      rw [NodeKey.toJson, compact_single (by decide), compact_side]
      rfl

theorem compact_edgeKey (key : EdgeKey) : key.toJson.compact = key.form := by
  cases key with
  | fan side =>
      rw [EdgeKey.toJson, compact_single (by decide), compact_side]
      rfl
  | ring i j =>
      rw [EdgeKey.toJson, compact_single (by decide), compact_list]
      simp [EdgeKey.form, Value.compact]

theorem compact_target (target : Cue.Target) : target.toJson.compact = target.form := by
  cases target with
  | node key =>
      rw [Cue.Target.toJson, compact_single (by decide), compact_nodeKey]
      rfl
  | edge key =>
      rw [Cue.Target.toJson, compact_single (by decide), compact_edgeKey]
      rfl

theorem compact_color (c : Color) : c.toJson.compact = c.form := by
  have digit : ∀ n < 16, Color.hexChar n = Color.capitals.getD n '?' := by
    intro n small
    rw [List.getD_eq_getElem?_getD, Color.capitals_getElem? n small, Option.getD_some]
  have channel : ∀ n : UInt8, Color.channelText n =
      [Color.capitals.getD (n.toNat / 16) '?', Color.capitals.getD (n.toNat % 16) '?'] := by
    intro n
    have small := n.toNat_lt
    rw [Color.channelText, digit _ (by omega), digit _ (by omega)]
  rw [Color.toJson, Value.compact, quote_of_plain c.toHex_plain, Color.toHex, String.toList_ofList]
  simp only [channel]
  rfl

theorem compact_palette (p : Palette) : p.toJson.compact = p.form := by
  have ring : quote "ring" = "\"ring\"" := by decide +kernel
  have neutral : quote "neutral" = "\"neutral\"" := by decide +kernel
  have highlight : quote "highlight" = "\"highlight\"" := by decide +kernel
  have colors : p.ring.map (Value.compact ∘ Color.toJson) = p.ring.map Color.form :=
    List.map_congr_left fun c _ => compact_color c
  rw [Palette.toJson, Value.compact, compactMembers_eq]
  simp only [List.map_cons, List.map_nil, ring, neutral, highlight, compact_list, List.map_map, colors,
    compact_color]
  simp [Palette.form, ← String.toList_inj]

theorem compact_canvas (c : Canvas) : c.toJson.compact = c.form := by
  have width : quote "width" = "\"width\"" := by decide +kernel
  have height : quote "height" = "\"height\"" := by decide +kernel
  rw [Canvas.toJson, Value.compact, compactMembers_eq]
  simp only [List.map_cons, List.map_nil, width, height, Value.compact]
  simp [Canvas.form, ← String.toList_inj]

theorem compact_loopPolicy (policy : LoopPolicy) : policy.toJson.compact = policy.form := by
  cases policy <;> decide +kernel

end Written

/-! ### What is read -/

theorem carries_targets {targets : List Cue.Target}
    (fits : ∀ t ∈ targets, ∀ i ∈ t.indices, i ≤ indexLimit) :
    Carries (readList readTarget) (.list (targets.map Cue.Target.toJson)) targets := by
  refine carries_list readTarget_stable ?_
  rw [List.forall₂_map_left_iff, List.forall₂_same]
  exact fun t member => carries_target (fits t member)

/-- All lists of targets whose indices documents can hold, and all palettes, canvases and loop policies, are
read from their texts. -/
theorem vocabulary_faithful :
    Faithful (readList readTarget) (fun targets => .list (targets.map Cue.Target.toJson))
      (fun targets => listForm (targets.map Cue.Target.form))
      (fun targets => ∀ t ∈ targets, ∀ i ∈ t.indices, i ≤ 2 ^ 64 - 1) ∧
    Faithful readPalette Palette.toJson Palette.form (fun _ => True) ∧
    Faithful readCanvas Canvas.toJson Canvas.form (fun _ => True) ∧
    Faithful readLoopPolicy LoopPolicy.toJson LoopPolicy.form (fun _ => True) := by
  refine ⟨faithful_of_carries ?_ fun _ fits => carries_targets fits,
    faithful_of_carries compact_palette fun p _ => carries_palette p,
    faithful_of_carries compact_canvas fun c _ => carries_canvas c,
    faithful_of_carries compact_loopPolicy fun policy _ => carries_loopPolicy policy⟩
  intro targets
  have parts : targets.map (Value.compact ∘ Cue.Target.toJson) = targets.map Cue.Target.form :=
    List.map_congr_left fun t _ => compact_target t
  rw [compact_list, List.map_map, parts]

/-- The keys that have a fan and a pair of ring nodes. -/
example : listForm ([.node (.ring 7), .edge (.fan .right), .edge (.ring 2 0)].map Cue.Target.form) =
    "[\x7b\"node\":\x7b\"ring\":7\x7d\x7d,\x7b\"edge\":\x7b\"fan\":\"right\"\x7d\x7d," ++
      "\x7b\"edge\":\x7b\"ring\":[2,0]\x7d\x7d]" := by
  decide +kernel

end Emblem
