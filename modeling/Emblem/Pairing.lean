/-
Module: Emblem.Pairing
Purpose: Which pairs of ring nodes are joined. Four rules leave a pair out, tried in order; what
  none of them leaves out is joined.
Main exports: SkipRule, Verdict, Verdict.ofPair, ringPairs, skippedPairs, edgePlan
-/
import Emblem.Key

namespace Emblem

/-- Why a pair of ring nodes is left unjoined. -/
inductive SkipRule where
  /-- Both are the same node. -/
  | sameNode
  /-- The indices are congruent modulo three. -/
  | sameClass
  /-- One index is one above a multiple of three and the other two above one. -/
  | crossClass
  /-- The two ends of the long horizontal diagonal. -/
  | horizontalDiagonal
deriving DecidableEq, Repr

def SkipRule.describe : SkipRule → String
  | sameNode => "SameNode"
  | sameClass => "SameClass"
  | crossClass => "CrossClass"
  | horizontalDiagonal => "HorizontalDiagonal"

/-- What becomes of a pair. -/
inductive Verdict where
  | join
  | skip (rule : SkipRule)
deriving DecidableEq, Repr

/-- The first rule that fits a pair decides; a pair that fits none is joined. -/
def Verdict.ofPair (i j : Nat) : Verdict :=
  if i = j then .skip .sameNode
  else if i % 3 = j % 3 then .skip .sameClass
  else if (i % 3 = 1 ∧ j % 3 = 2) ∨ (i % 3 = 2 ∧ j % 3 = 1) then .skip .crossClass
  else if min i j = 0 ∧ max i j = 3 then .skip .horizontalDiagonal
  else .join

/-- The pairs of different ring indices, each with the smaller first, in ascending order. -/
def candidatePairs : List (Nat × Nat) :=
  (List.range ringSize).flatMap fun i =>
    ((List.range ringSize).filter (i < ·)).map fun j => (i, j)

/-- The edges between ring nodes, in ascending order. -/
def ringPairs : List EdgeKey :=
  candidatePairs.filterMap fun (i, j) =>
    match Verdict.ofPair i j with
    | .join => some (.ring i j)
    | .skip _ => none

/-- The pairs left unjoined, in ascending order, each with its rule. -/
def skippedPairs : List (Nat × Nat × SkipRule) :=
  candidatePairs.filterMap fun (i, j) =>
    match Verdict.ofPair i j with
    | .join => none
    | .skip rule => some (i, j, rule)

/-- Every edge in the order of drawing: the fans first, then the ring pairs. -/
def edgePlan : List EdgeKey :=
  Side.all.map .fan ++ ringPairs

end Emblem
