/-
Module: Emblem.Proofs.ElementIds
Purpose: Element ids tell keys and steps apart. Numerals are separated by hyphens, and the three
  kinds of ids, and the fans among them, begin differently.
Main exports: NodeKey.elementId_injective, EdgeKey.elementId_injective,
  StepId.elementId_injective, elementIds_nodup, Begin.exists_anchor_of_mention
-/
import Emblem.Handle
import Emblem.Key
import Emblem.Timeline.Step
import Mathlib.Data.List.Nodup

namespace Emblem

/-! ### Numerals -/

theorem toDigits_injective {m n : Nat} (same : Nat.toDigits 10 m = Nat.toDigits 10 n) : m = n := by
  have read := congrArg (Nat.ofDigitChars 10 · 0) same
  simpa using read

theorem notMem_toDigits {c : Char} (other : c.isDigit = false) (n : Nat) :
    c ∉ Nat.toDigits 10 n := by
  intro member
  have digit := Nat.isDigit_of_mem_toDigits (by decide) (by decide) member
  rw [other] at digit
  cases digit

/-! ### Injectivity -/

theorem Side.name_injective : Function.Injective Side.name := by
  intro a b same
  cases a <;> cases b <;> simp [Side.name] at same ⊢

theorem NodeKey.elementId_injective : Function.Injective NodeKey.elementId := by
  intro a b same
  have chars := congrArg String.toList same
  cases a with
  | ring i =>
      cases b with
      | ring j =>
          simp [elementId] at chars
          rw [toDigits_injective chars]
      | fan side => simp [elementId] at chars
  | fan side =>
      cases b with
      | ring j => simp [elementId] at chars
      | fan side' =>
          simp [elementId] at chars
          rw [Side.name_injective (String.toList_inj.1 chars)]

/-- No numeral begins like the name of a fan. -/
theorem EdgeKey.elementId_ring_ne_fan (i j : Nat) (side : Side) :
    (EdgeKey.ring i j).elementId ≠ (EdgeKey.fan side).elementId := by
  intro same
  have chars := congrArg String.toList same
  simp [elementId] at chars
  cases digits : Nat.toDigits 10 i with
  | nil => exact Nat.toDigits_ne_nil digits
  | cons c rest =>
      rw [digits] at chars
      have head := (List.cons.inj chars).1
      apply notMem_toDigits (c := 'f') (by decide) i
      rw [digits, head]
      exact List.mem_cons_self

theorem EdgeKey.elementId_injective : Function.Injective EdgeKey.elementId := by
  intro a b same
  cases a with
  | fan side =>
      cases b with
      | fan side' =>
          have chars := congrArg String.toList same
          simp [elementId] at chars
          rw [Side.name_injective (String.toList_inj.1 chars)]
      | ring i j => exact absurd same.symm (elementId_ring_ne_fan i j side)
  | ring i j =>
      cases b with
      | fan side => exact absurd same (elementId_ring_ne_fan i j side)
      | ring k l =>
          have chars := congrArg String.toList same
          simp [elementId] at chars
          -- A numeral has no hyphen, so the hyphens of both ids stand at the same place.
          have noHyphen := notMem_toDigits (c := '-') (by decide)
          have parts := (List.append_cons_inj_of_notMem (noHyphen i) (noHyphen j)).1 chars
          rw [toDigits_injective parts.1, toDigits_injective parts.2.2]

theorem StepId.elementId_injective : Function.Injective StepId.elementId := by
  intro a b same
  have chars := congrArg String.toList same
  simp [elementId] at chars
  cases a with
  | mk i =>
      cases b with
      | mk j =>
          have numerals : i = j := toDigits_injective chars
          rw [numerals]

/-! ### Disjointness -/

theorem NodeKey.elementId_ne_edge (n : NodeKey) (e : EdgeKey) : n.elementId ≠ e.elementId := by
  intro same
  have chars := congrArg String.toList same
  cases n <;> cases e <;> simp [elementId, EdgeKey.elementId] at chars

theorem StepId.elementId_ne_node (s : StepId) (n : NodeKey) : s.elementId ≠ n.elementId := by
  intro same
  have chars := congrArg String.toList same
  cases n <;> simp [elementId, NodeKey.elementId] at chars

theorem StepId.elementId_ne_edge (s : StepId) (e : EdgeKey) : s.elementId ≠ e.elementId := by
  intro same
  have chars := congrArg String.toList same
  cases e <;> simp [elementId, EdgeKey.elementId] at chars

/-- Distinct edge keys, node keys and steps give distinct ids all together. -/
theorem elementIds_nodup {edges : List EdgeKey} {nodes : List NodeKey} {steps : List StepId}
    (distinctEdges : edges.Nodup) (distinctNodes : nodes.Nodup) (distinctSteps : steps.Nodup) :
    (edges.map EdgeKey.elementId ++ nodes.map NodeKey.elementId ++
      steps.map StepId.elementId).Nodup := by
  have shapes : (edges.map EdgeKey.elementId ++ nodes.map NodeKey.elementId).Nodup := by
    refine List.Nodup.append (distinctEdges.map EdgeKey.elementId_injective)
      (distinctNodes.map NodeKey.elementId_injective) ?_
    intro x ofEdge ofNode
    obtain ⟨e, _, rfl⟩ := List.mem_map.1 ofEdge
    obtain ⟨n, _, same⟩ := List.mem_map.1 ofNode
    exact n.elementId_ne_edge e same
  refine List.Nodup.append shapes (distinctSteps.map StepId.elementId_injective) ?_
  intro x ofShape ofStep
  obtain ⟨s, _, rfl⟩ := List.mem_map.1 ofStep
  rcases List.mem_append.1 ofShape with ofEdge | ofNode
  · obtain ⟨e, _, same⟩ := List.mem_map.1 ofEdge
    exact s.elementId_ne_edge e same.symm
  · obtain ⟨n, _, same⟩ := List.mem_map.1 ofNode
    exact s.elementId_ne_node n same.symm

/-! ### Mentions of steps in begin times -/

theorem Number.mem_pointed {k n : Nat} {c : Char} (member : c ∈ pointed k n) :
    c.isDigit ∨ c = '.' := by
  simp only [pointed, digits, zeros, List.mem_append, List.mem_cons, List.mem_replicate] at member
  rcases member with (whole | point | zero) | fraction
  · exact .inl (Nat.isDigit_of_mem_toDigits (by decide) (by decide) whole)
  · exact .inr point
  · rw [zero.2]
    exact .inl rfl
  · exact .inl (Nat.isDigit_of_mem_toDigits (by decide) (by decide) fraction)

/-- A number with decimal places has few characters that are no digits. -/
theorem Number.mem_places {k : Nat} {x : Float} {c : Char} (member : c ∈ (places k x).toList) :
    c.isDigit ∨ c ∈ "-.NaNinf".toList := by
  have sign : ∀ s, c ∈ (signText s).toList → c ∈ "-.NaNinf".toList := by
    intro s inSign
    cases s with
    | positive => cases inSign
    | negative => exact List.mem_append_left _ inSign
  have number : ∀ n, c ∈ pointed k n → c.isDigit ∨ c ∈ "-.NaNinf".toList := by
    intro n inNumber
    rcases mem_pointed inNumber with digit | rfl
    · exact .inl digit
    · exact .inr (by decide)
  unfold places Binary.places at member
  cases value : binary x with
  | notANumber =>
      rw [value] at member
      have inName : c ∈ "NaN".toList := member
      exact .inr (List.mem_append_left "inf".toList (List.mem_append_right "-.".toList inName))
  | infinity s =>
      rw [value] at member
      simp only [String.toList_append, List.mem_append] at member
      rcases member with inSign | inName
      · exact .inr (sign s inSign)
      · exact .inr (List.mem_append_right "-.NaN".toList inName)
  | zero s =>
      rw [value] at member
      simp only [String.toList_append, String.toList_ofList, List.mem_append] at member
      rcases member with inSign | inNumber
      · exact .inr (sign s inSign)
      · exact number _ inNumber
  | finite s m e h =>
      rw [value] at member
      simp only [String.toList_append, String.toList_ofList, List.mem_append] at member
      rcases member with inSign | inNumber
      · exact .inr (sign s inSign)
      · exact number _ inNumber

theorem Begin.notMem_offsetText {c : Char} (noDigit : c.isDigit = false)
    (other : c ∉ "+-.NaNinfs".toList) (t : Float) : c ∉ (offsetText t).toList := by
  intro member
  apply other
  simp only [offsetText, String.toList_append, List.mem_append] at member
  rcases member with (plus | inNumber) | unit
  · exact List.mem_append_left "-.NaNinfs".toList plus
  · rcases Number.mem_places inNumber with digit | letter
    · rw [noDigit] at digit
      cases digit
    · exact List.mem_append_right "+".toList (List.mem_append_left "s".toList letter)
  · exact List.mem_append_right "+-.NaNinf".toList unit

/-- Where a begin time mentions the end of a step, the step is its anchor. -/
theorem Begin.exists_anchor_of_mention {b : Begin} {before word after : String}
    (mention : b.text = before ++ "anim-" ++ word ++ ".end" ++ after) :
    ∃ anchor, b.anchor? = some anchor ∧ "anim-" ++ word = anchor.elementId := by
  have chars := congrArg String.toList mention
  have noM := notMem_offsetText (c := 'm') (by decide) (by decide)
  have noE := notMem_offsetText (c := 'e') (by decide) (by decide)
  cases b with
  | once t =>
      refine absurd ?_ (noM t)
      have start : offsetText t = (Begin.once t).text := rfl
      rw [start, chars]
      simp
  | chained t anchor =>
      have noDigitM := notMem_toDigits (c := 'm') (by decide) anchor.index
      have noDigitE := notMem_toDigits (c := 'e') (by decide) anchor.index
      simp [text, StepId.elementId] at chars
      -- The only `m` is that of `anim`, and after it the only `e` is that of `end`.
      have atM : (offsetText t).toList ++ [';', ' ', 'a', 'n', 'i'] =
            before.toList ++ ['a', 'n', 'i'] ∧ 'm' = 'm' ∧
          '-' :: (Nat.toDigits 10 anchor.index ++ '.' :: 'e' :: 'n' :: 'd' ::
              (offsetText t).toList) =
            '-' :: (word.toList ++ '.' :: 'e' :: 'n' :: 'd' :: after.toList) :=
        (List.append_cons_inj_of_notMem (by simp [noM]) (by simp [noDigitM, noM])).1
          (by simpa using chars)
      have afterHyphen := (List.cons.inj atM.2.2).2
      have atE : Nat.toDigits 10 anchor.index ++ ['.'] = word.toList ++ ['.'] ∧ 'e' = 'e' ∧
          'n' :: 'd' :: (offsetText t).toList = 'n' :: 'd' :: after.toList :=
        (List.append_cons_inj_of_notMem (by simp [noDigitE]) (by simp [noE])).1
          (by simpa using afterHyphen)
      have numeral := List.append_cancel_right atE.1
      refine ⟨anchor, rfl, String.toList_inj.1 ?_⟩
      simp [StepId.elementId, numeral]

end Emblem
