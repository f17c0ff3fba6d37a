/-
Module: Emblem.Proofs.PairRules
Purpose: Which pairs of indices each rule leaves out, for indices of any size. The order of a pair does
  not matter, and its classes modulo three decide. The rule of the diagonal comes too late ever to be
  given as the reason.
Main exports: SkipRule.Fits, SkipRule.all, Verdict.ofPair_eq_skip_iff, Verdict.ofPair_eq_join_iff,
  Verdict.ofPair_comm, Verdict.ofPair_classes
-/
import Emblem.Pairing
import Mathlib.Data.Nat.ModEq

namespace Emblem

/-! ### Rules on their own -/

namespace SkipRule

/-- The rules in the order in which they are tried. -/
def all : List SkipRule := [sameNode, sameClass, crossClass, horizontalDiagonal]

/-- The rules that are tried before a rule. -/
def earlier (rule : SkipRule) : List SkipRule :=
  all.takeWhile (· ≠ rule)

/-- What a rule says of a pair, whatever the other rules say. -/
def Fits : SkipRule → Nat → Nat → Prop
  | sameNode, i, j => i = j
  | sameClass, i, j => i ≡ j [MOD 3]
  | crossClass, i, j => (i % 3 = 1 ∧ j % 3 = 2) ∨ (i % 3 = 2 ∧ j % 3 = 1)
  | horizontalDiagonal, i, j => min i j = 0 ∧ max i j = 3

instance (rule : SkipRule) (i j : Nat) : Decidable (rule.Fits i j) :=
  match rule with
  | sameNode => inferInstanceAs (Decidable (i = j))
  | sameClass => inferInstanceAs (Decidable (i ≡ j [MOD 3]))
  | crossClass => inferInstanceAs (Decidable ((i % 3 = 1 ∧ j % 3 = 2) ∨ (i % 3 = 2 ∧ j % 3 = 1)))
  | horizontalDiagonal => inferInstanceAs (Decidable (min i j = 0 ∧ max i j = 3))

/-- No rule asks which index of a pair comes first. -/
theorem fits_comm (rule : SkipRule) (i j : Nat) : rule.Fits i j ↔ rule.Fits j i := by
  cases rule with
  | sameNode => exact eq_comm
  | sameClass => exact Nat.ModEq.comm
  | crossClass =>
      simp only [Fits]
      omega
  | horizontalDiagonal => rw [Fits, Fits, min_comm, max_comm]

/-- The ends of the diagonal are in one class. -/
theorem sameClass_of_horizontalDiagonal {i j : Nat} (diagonal : horizontalDiagonal.Fits i j) :
    sameClass.Fits i j := by
  simp only [Fits, Nat.ModEq] at diagonal ⊢
  omega

end SkipRule

/-! ### The first rule that fits -/

namespace Verdict

/-- The rules in a row. -/
theorem ofPair_eq (i j : Nat) :
    ofPair i j =
      if SkipRule.sameNode.Fits i j then .skip .sameNode
      else if SkipRule.sameClass.Fits i j then .skip .sameClass
      else if SkipRule.crossClass.Fits i j then .skip .crossClass
      else if SkipRule.horizontalDiagonal.Fits i j then .skip .horizontalDiagonal
      else .join :=
  rfl

/-- A pair is joined if no rule fits. -/
theorem ofPair_eq_join_iff (i j : Nat) :
    ofPair i j = .join ↔ ∀ r ∈ SkipRule.all, ¬r.Fits i j := by
  rw [ofPair_eq]
  split_ifs <;> simp [SkipRule.all, *]

/-- A rule is given as the reason if it fits and no earlier one does. -/
theorem ofPair_eq_skip_iff (rule : SkipRule) (i j : Nat) :
    ofPair i j = .skip rule ↔ rule.Fits i j ∧ ∀ r ∈ rule.earlier, ¬r.Fits i j := by
  rw [ofPair_eq]
  cases rule <;> split_ifs <;> simp [SkipRule.earlier, SkipRule.all, List.takeWhile, *]

theorem ofPair_comm (i j : Nat) : ofPair i j = ofPair j i := by
  cases turned : ofPair j i with
  | join =>
      rw [ofPair_eq_join_iff] at turned ⊢
      intro r member
      rw [r.fits_comm]
      exact turned r member
  | skip rule =>
      rw [ofPair_eq_skip_iff] at turned ⊢
      refine ⟨(rule.fits_comm i j).2 turned.1, ?_⟩
      intro r member
      rw [r.fits_comm]
      exact turned.2 r member

/-! ### Classes -/

section Classes

variable {i j : Nat}

/-- Of two nodes that are joined, one alone has a multiple of three as its index. -/
theorem ofPair_eq_join_iff_xor : ofPair i j = .join ↔ Xor (3 ∣ i) (3 ∣ j) := by
  rw [ofPair_eq_join_iff]
  simp only [SkipRule.all, List.forall_mem_cons, SkipRule.Fits, Nat.ModEq, Xor]
  constructor
  · rintro ⟨_, _, cross, _⟩
    omega
  · intro one
    refine ⟨by omega, by omega, by omega, by omega, by simp⟩

theorem ofPair_eq_sameNode_iff : ofPair i j = .skip .sameNode ↔ i = j := by
  have first : SkipRule.sameNode.earlier = [] := rfl
  rw [ofPair_eq_skip_iff, first]
  exact and_iff_left (List.forall_mem_nil _)

theorem ofPair_eq_sameClass_iff : ofPair i j = .skip .sameClass ↔ i ≠ j ∧ i ≡ j [MOD 3] := by
  have second : SkipRule.sameClass.earlier = [.sameNode] := rfl
  rw [ofPair_eq_skip_iff, second, List.forall_mem_singleton, and_comm]
  rfl

/-- Indices of these classes differ, so no earlier rule fits them. -/
theorem ofPair_eq_crossClass_iff :
    ofPair i j = .skip .crossClass ↔ ¬3 ∣ i ∧ ¬3 ∣ j ∧ ¬i ≡ j [MOD 3] := by
  have third : SkipRule.crossClass.earlier = [.sameNode, .sameClass] := rfl
  rw [ofPair_eq_skip_iff, third]
  simp only [List.forall_mem_cons, SkipRule.Fits, Nat.ModEq]
  constructor
  · rintro ⟨cross, _⟩
    omega
  · intro apart
    refine ⟨by omega, by omega, by omega, by simp⟩

/-- Where the rule of the diagonal fits, the rule of the class has fitted before. -/
theorem ofPair_of_horizontalDiagonal (diagonal : SkipRule.horizontalDiagonal.Fits i j) :
    ofPair i j = .skip .sameClass := by
  apply ofPair_eq_sameClass_iff.2
  refine ⟨?_, SkipRule.sameClass_of_horizontalDiagonal diagonal⟩
  simp only [SkipRule.Fits] at diagonal
  omega

theorem ofPair_ne_horizontalDiagonal : ofPair i j ≠ .skip .horizontalDiagonal := by
  intro last
  have fits := ((ofPair_eq_skip_iff _ i j).1 last).1
  rw [ofPair_of_horizontalDiagonal fits] at last
  cases last

end Classes

/-- What becomes of a pair depends on the classes of its indices modulo three, and on whether they are
the same. The last rule never decides. -/
theorem ofPair_classes (i j : Nat) :
    ofPair i j = ofPair j i ∧
      (ofPair i j = .join ↔ Xor (3 ∣ i) (3 ∣ j)) ∧
      (ofPair i j = .skip .sameNode ↔ i = j) ∧
      (ofPair i j = .skip .sameClass ↔ i ≠ j ∧ i ≡ j [MOD 3]) ∧
      (ofPair i j = .skip .crossClass ↔ ¬3 ∣ i ∧ ¬3 ∣ j ∧ ¬i ≡ j [MOD 3]) ∧
      ofPair i j ≠ .skip .horizontalDiagonal ∧
      (SkipRule.horizontalDiagonal.Fits i j → ofPair i j = .skip .sameClass) :=
  ⟨ofPair_comm i j, ofPair_eq_join_iff_xor, ofPair_eq_sameNode_iff, ofPair_eq_sameClass_iff,
    ofPair_eq_crossClass_iff, ofPair_ne_horizontalDiagonal, ofPair_of_horizontalDiagonal⟩

end Verdict

end Emblem
