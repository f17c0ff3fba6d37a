/-
Module: Emblem.Raster.Grid
Purpose: Runs of pixels along one side of a picture, and the pixels that a shape can be painted on.
  The grid is as large as 32-bit numbers reach, and quarters of its rows are counted in them too, so
  that shapes of an excessive size are cut off or left out.
Main exports: Run, Run.around?, Run.quarters, Patch, Patch.ofShape?, Patch.paints
-/
import Emblem.Number.Rounding
import Emblem.Raster.Outline

namespace Emblem

/-- A run of consecutive pixels, or of quarters of them. -/
structure Run where
  first : Int
  /-- The one after the last. -/
  past : Int
deriving DecidableEq, Repr

namespace Run

/-- The farthest pixel on either side, and the length of the longest run: the greatest natural
below `2 ^ 31` with 24 binary digits. -/
def limit : Nat := 2147483520

/-- The run of the pixels that are touched between two coordinates. Its start and its length are
each kept within the limit, so that a run which starts too far off also ends too early; one that
would end too late is none. -/
def around? (low high : Float) : Option Run :=
  if low.isFinite && high.isFinite then
    let start := (Number.binary low).floor
    let length := Number.roundBits 24 ((Number.binary high).ceil - start).toNat
    let first := max (-(limit : Int)) (min (limit : Int) start)
    let past := first + (max 1 (min limit length) : Nat)
    if past < (Nat.pow 2 31 : Nat) then some ⟨first, past⟩ else none
  else none

/-- Whether a run holds a pixel. -/
def holds (r : Run) (k : Nat) : Bool :=
  decide (r.first ≤ k) && decide ((k : Int) < r.past)

/-- The quarters of the pixels of a run, counted in 32 bits. -/
def quarters (r : Run) : Run :=
  ⟨Int.bmod (4 * r.first) (Nat.pow 2 32), Int.bmod (4 * r.past) (Nat.pow 2 32)⟩

/-- Whether a run of quarters holds all four of a pixel. -/
def holdsQuarters (r : Run) (k : Nat) : Bool :=
  r.holds (4 * k) && r.holds (4 * k + 3)

end Run

/-- A shape among the pixels: its colour, the pixels that it can be painted on, and its outline. -/
structure Patch where
  color : Color
  columns : Run
  rows : Run
  outline : Outline
deriving DecidableEq, Repr

namespace Patch

/-- The patch of a shape, if it can be painted at all. -/
def ofShape? (l : Placement) (s : Shape) : Option Patch := do
  match s.corners l with
  | [] => none
  | corner :: rest =>
    let low := rest.foldl Point.nearest corner
    let high := rest.foldl Point.farthest corner
    let columns ← Run.around? low.x high.x
    let rows ← Run.around? low.y high.y
    return ⟨s.color, columns, rows, s.outline l⟩

/-- Whether a patch paints a pixel, which it does if its outline encloses the pixel's centre. -/
def paints (p : Patch) (column row : Nat) : Bool :=
  p.columns.holds column && p.rows.holds row && p.rows.quarters.holdsQuarters row &&
    p.outline.encloses ⟨column.toFloat + 0.5, row.toFloat + 0.5⟩

end Patch

end Emblem
