/-
Module: Emblem.Proofs.Outcome
Purpose: Taking work that may be refused apart into its stages: what a result of the whole says
  about each of them.
Main exports: bind_eq_ok_iff, bind_eq_error_iff, check_bind_eq_ok_iff, check_bind_eq_error_iff,
  map_eq_ok_iff, map_eq_error_iff, toOption_eq_some_iff, mapM_eq_ok_iff, mapM_concat_eq_ok_iff,
  exists_of_mem_left, exists_of_mem_right, exists_getElem?_of_forall₂, exists_mapM
-/
import Mathlib.Data.List.Forall2

namespace Emblem

section Stages

variable {ε α β : Type} {x : Except ε α}

/-- Work in two stages succeeds if both do. -/
theorem bind_eq_ok_iff {f : α → Except ε β} {b : β} :
    x >>= f = .ok b ↔ ∃ a, x = .ok a ∧ f a = .ok b := by
  cases x with
  | error e =>
      constructor
      · intro refused
        cases refused
      · rintro ⟨a, impossible, _⟩
        cases impossible
  | ok a =>
      constructor
      · intro succeeded
        exact ⟨a, rfl, succeeded⟩
      · rintro ⟨_, same, succeeded⟩
        cases same
        exact succeeded

/-- Work in two stages is refused by the first one, or by the second one after it. -/
theorem bind_eq_error_iff {f : α → Except ε β} {e : ε} :
    x >>= f = .error e ↔ x = .error e ∨ ∃ a, x = .ok a ∧ f a = .error e := by
  cases x with
  | error e' =>
      constructor
      · intro refused
        cases refused
        exact .inl rfl
      · rintro (same | ⟨a, impossible, _⟩)
        · cases same
          rfl
        · cases impossible
  | ok a =>
      constructor
      · intro refused
        exact .inr ⟨a, rfl, refused⟩
      · rintro (impossible | ⟨_, same, refused⟩)
        · cases impossible
        · cases same
          exact refused

/-- A check before further work must be passed. -/
theorem check_bind_eq_ok_iff {check : Except ε Unit} {f : Unit → Except ε β} {b : β} :
    check >>= f = .ok b ↔ check = .ok () ∧ f () = .ok b := by
  rw [bind_eq_ok_iff]
  exact ⟨fun ⟨_, passed⟩ => passed, fun passed => ⟨(), passed⟩⟩

/-- Checked work is refused by the check, or behind it. -/
theorem check_bind_eq_error_iff {check : Except ε Unit} {f : Unit → Except ε β} {e : ε} :
    check >>= f = .error e ↔ check = .error e ∨ (check = .ok () ∧ f () = .error e) := by
  rw [bind_eq_error_iff]
  exact or_congr_right ⟨fun ⟨_, refused⟩ => refused, fun refused => ⟨(), refused⟩⟩

theorem map_eq_ok_iff {f : α → β} {b : β} :
    x.map f = .ok b ↔ ∃ a, x = .ok a ∧ f a = b := by
  cases x <;> simp [Except.map]

theorem map_eq_error_iff {f : α → β} {e : ε} :
    x.map f = .error e ↔ x = .error e := by
  cases x <;> simp [Except.map]

theorem toOption_eq_some_iff {a : α} : x.toOption = some a ↔ x = .ok a := by
  cases x <;> simp [Except.toOption]

end Stages

/-- Work on a list succeeds if it does on every element. -/
theorem mapM_eq_ok_iff {ε α β : Type} {f : α → Except ε β} {xs : List α} {ys : List β} :
    xs.mapM f = .ok ys ↔ List.Forall₂ (fun x y => f x = .ok y) xs ys := by
  induction xs generalizing ys with
  | nil =>
      rw [List.mapM_nil, List.forall₂_nil_left_iff]
      constructor
      · intro same
        cases same
        rfl
      · rintro rfl
        rfl
  | cons x rest ih =>
      rw [List.mapM_cons, bind_eq_ok_iff, List.forall₂_cons_left_iff]
      constructor
      · rintro ⟨y, head, done⟩
        obtain ⟨tail, others, same⟩ := bind_eq_ok_iff.1 done
        cases same
        exact ⟨y, tail, head, ih.1 others, rfl⟩
      · rintro ⟨y, tail, head, others, rfl⟩
        exact ⟨y, head, bind_eq_ok_iff.2 ⟨tail, ih.2 others, rfl⟩⟩

/-- Work on a list comes to what it comes to on all elements but the last, and on the last. -/
theorem mapM_concat_eq_ok_iff {ε α β : Type} {f : α → Except ε β} {xs : List α} {x : α}
    {ys : List β} :
    (xs ++ [x]).mapM f = .ok ys ↔
      ∃ zs z, xs.mapM f = .ok zs ∧ f x = .ok z ∧ ys = zs ++ [z] := by
  have single : [x].mapM f = f x >>= fun z => pure [z] := by
    rw [List.mapM_cons]
    rfl
  rw [List.mapM_append, single]
  simp only [bind_eq_ok_iff]
  constructor
  · rintro ⟨zs, others, _, ⟨z, last, same⟩, done⟩
    cases same
    cases done
    exact ⟨zs, z, others, last, rfl⟩
  · rintro ⟨zs, z, others, last, rfl⟩
    exact ⟨zs, others, [z], ⟨z, last, rfl⟩, rfl⟩

theorem exists_of_mem_left {α β : Type} {R : α → β → Prop} {xs : List α} {ys : List β}
    (related : List.Forall₂ R xs ys) {x : α} (member : x ∈ xs) : ∃ y ∈ ys, R x y := by
  induction related with
  | nil => cases member
  | cons here _ ih =>
      rcases List.mem_cons.1 member with rfl | later
      · exact ⟨_, List.mem_cons_self, here⟩
      · obtain ⟨y, found, holds⟩ := ih later
        exact ⟨y, List.mem_cons_of_mem _ found, holds⟩

theorem exists_of_mem_right {α β : Type} {R : α → β → Prop} {xs : List α} {ys : List β}
    (related : List.Forall₂ R xs ys) {y : β} (member : y ∈ ys) : ∃ x ∈ xs, R x y :=
  exists_of_mem_left related.flip member

/-- What stands at a place of one list is related to what stands there in the other. -/
theorem exists_getElem?_of_forall₂ {α β : Type} {R : α → β → Prop} {xs : List α} {ys : List β}
    (related : List.Forall₂ R xs ys) {k : Nat} {x : α} (place : xs[k]? = some x) :
    ∃ y, ys[k]? = some y ∧ R x y := by
  obtain ⟨inside, rfl⟩ := List.getElem?_eq_some_iff.1 place
  have other : k < ys.length := by
    rw [← related.length_eq]
    exact inside
  exact ⟨ys[k], List.getElem?_eq_getElem other, related.get inside other⟩

/-- Work that can be done on every element of a list can be done on the list. -/
theorem exists_mapM {ε α β : Type} {f : α → Except ε β} {xs : List α}
    (each : ∀ x ∈ xs, ∃ y, f x = .ok y) : ∃ ys, xs.mapM f = .ok ys := by
  induction xs with
  | nil => exact ⟨[], rfl⟩
  | cons x rest ih =>
      obtain ⟨y, head⟩ := each x List.mem_cons_self
      obtain ⟨ys, tail⟩ := ih fun z member => each z (List.mem_cons_of_mem _ member)
      exact ⟨y :: ys, mapM_eq_ok_iff.2 (.cons head (mapM_eq_ok_iff.1 tail))⟩

end Emblem
