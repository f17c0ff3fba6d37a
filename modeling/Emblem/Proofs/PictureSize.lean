/-
Module: Emblem.Proofs.PictureSize
Purpose: How large pictures are. A side takes as many pixels as its scaled length rounded up, at least one;
  lengths that are too small to be told from zero or too large to be finite are no exceptions. Whether a
  drawing is refused, and as what, is a matter of its scale and of these numbers alone.
Main exports: Number.ceilScaled_eq, Number.value32, Number.sign_mul32, Drawing.sidePixels,
  Drawing.pixels_eq, Drawing.Bounded, Drawing.toPictureOn_bounded
-/
import Emblem.Raster.Scan
import Emblem.Proofs.ExactValue

namespace Emblem

namespace Number

open Float.Model (Format)
open Float.Model.UnpackedFloat (mul pack unpack)

/-! ### Rounding up -/

/-- Division that rounds up gives the least natural that is not below the quotient. -/
theorem div_up_eq_ceil (m : Nat) {d : Nat} (d_pos : 0 < d) : (m + (d - 1)) / d = ⌈(m : ℚ) / d⌉₊ := by
  refine eq_of_forall_ge_iff fun c => ?_
  rw [Nat.div_le_iff_le_mul_add_pred d_pos, Nat.add_le_add_iff_right, Nat.ceil_le,
    div_le_iff₀ (Nat.cast_pos.2 d_pos), mul_comm]
  norm_cast

/-- Scaling by a power of two and rounding up in one step is rounding the number up. -/
theorem ceilScaled_eq (m : Nat) (e : Int) : ceilScaled m e = ⌈(m : ℚ) * 2 ^ e⌉₊ := by
  unfold ceilScaled
  split
  case isTrue nonneg =>
    obtain ⟨k, rfl⟩ := Int.eq_ofNat_of_zero_le nonneg
    have whole : (m : ℚ) * 2 ^ (k : ℤ) = ((m * 2 ^ k : ℕ) : ℚ) := by
      push_cast
      rw [zpow_natCast]
    rw [whole, Nat.ceil_natCast]
    rfl
  case isFalse negative =>
    obtain ⟨k, rfl⟩ : ∃ k : ℕ, e = -k := ⟨(-e).toNat, by omega⟩
    have quotient : (m : ℚ) * 2 ^ (-k : ℤ) = (m : ℚ) / ((2 ^ k : ℕ) : ℚ) := by
      rw [zpow_neg, zpow_natCast, div_eq_mul_inv]
      push_cast
      rfl
    have power : Nat.pow 2 (- -(k : ℤ)).toNat = 2 ^ k := by
      rw [neg_neg, Int.toNat_natCast]
      rfl
    rw [quotient, power, div_up_eq_ceil m (Nat.two_pow_pos k)]

/-! ### Positive products -/

/-- The rational number that a 32-bit float stands for; what is not finite counts as zero. -/
def value32 (x : Float32) : ℚ :=
  (binary32 x).value

section Products

variable {x y : Float32}

theorem lt_iff_lt_binary32 : x < y ↔ (binary32 x).lt (binary32 y) :=
  decide_eq_true_iff

theorem le_iff_le_binary32 : x ≤ y ↔ (binary32 x).le (binary32 y) :=
  decide_eq_true_iff

theorem binary32_zero : binary32 0 = .zero .positive :=
  rfl

/-- A finite number is either positive or at most zero. -/
theorem not_pos_iff_nonpos (finite : x.isFinite) : ¬0 < x ↔ x ≤ 0 := by
  have number : (binary32 x).isFinite := finite
  rw [lt_iff_lt_binary32, le_iff_le_binary32, binary32_zero]
  rcases Binary.eq_zero_or_finite number with ⟨s, shape⟩ | ⟨s, m, e, m_pos, shape⟩
  · rw [shape]
    exact ⟨fun _ => rfl, fun _ => nofun⟩
  · rw [shape]
    cases s with
    | negative => exact ⟨fun _ => rfl, fun _ => nofun⟩
    | positive => exact ⟨fun notAbove => absurd rfl notAbove, nofun⟩

theorem exists_positive32 (finite : x.isFinite) (positive : 0 < x) :
    ∃ m e m_pos, binary32 x = .finite .positive m e m_pos := by
  rw [lt_iff_lt_binary32, binary32_zero] at positive
  exact Binary.exists_of_zero_lt finite positive

/-- A product of positive numbers is a number without a minus sign; it can be zero or the infinity. -/
theorem sign_mul32 (finite : x.isFinite) (positive : 0 < x) (finite' : y.isFinite) (positive' : 0 < y) :
    (binary32 (x * y)).sign? = some .positive := by
  obtain ⟨m, e, m_pos, left⟩ := exists_positive32 finite positive
  obtain ⟨n, k, n_pos, right⟩ := exists_positive32 finite' positive'
  -- Rounding may leave nothing of the product, and packing may take it for the infinity.
  have packed : binary32 (x * y) = unpack Format.binary32
      (pack Format.binary32 (mul Format.binary32 (binary32 x) (binary32 y))) := rfl
  rw [packed, left, right]
  exact Binary.sign_unpack_pack (Binary.sign_roundWithAccuracy ..)

end Products

end Number

/-! ### The sides of a picture -/

namespace Drawing

/-- The pixels along a scaled length: as many as it says when it is rounded up, at least one and at most as
many as 32 bits count, which also stand for the infinity. -/
def sidePixels (x : Float32) : Nat :=
  if x.isFinite then max 1 (min (2 ^ 32 - 1) ⌈Number.value32 x⌉₊) else 2 ^ 32 - 1

/-- A product that vanishes takes a pixel, and one that overflows all of them. -/
example : sidePixels (1e-40 * 1e-40) = 1 ∧ sidePixels (3e38 * 2) = 4294967295 := by decide +kernel

variable {side scale : Float32}

theorem sidePixels_pos (x : Float32) : 1 ≤ sidePixels x := by
  unfold sidePixels
  split
  · exact le_max_left _ _
  · decide

/-- Positive lengths take the pixels that they should. -/
theorem pixels_eq (finite : side.isFinite) (positive : 0 < side) (finite' : scale.isFinite)
    (positive' : 0 < scale) : pixels side scale = sidePixels (side * scale) := by
  have sign := Number.sign_mul32 finite positive finite' positive'
  have finite_iff : (side * scale).isFinite ↔ (Number.binary32 (side * scale)).isFinite := Iff.rfl
  unfold pixels sidePixels Number.value32
  simp only [finite_iff]
  generalize Number.binary32 (side * scale) = b at sign
  cases b with
  | notANumber => cases sign
  | infinity s =>
      cases sign
      decide
  | zero s => rfl
  | finite s m e m_pos =>
      cases sign
      have number : Number.Binary.value (.finite .positive m e m_pos) = m * 2 ^ e := rfl
      rw [number, ← Number.ceilScaled_eq]
      rfl

/-! ### Outcomes -/

theorem isScale_iff : isScale scale ↔ scale.isFinite ∧ ¬scale ≤ 0 := by
  rw [isScale, Bool.and_eq_true, decide_eq_true_iff]
  refine and_congr_right fun finite => ?_
  rw [← Number.not_pos_iff_nonpos finite, not_not]

/-- What is said of a picture that is too large. -/
def sizeComplaint (width height : Nat) : String :=
  "raster size too large: " ++ toString width ++ "x" ++ toString height ++ " (max 8192x8192)"

theorem detail_pictureTooLarge (width height : Nat) :
    (Error.pictureTooLarge width height).detail = sizeComplaint width height := by
  have side : toString maxSide = "8192" := by decide +kernel
  have limits : " (max " ++ ("8192" ++ ("x" ++ ("8192" ++ ")"))) = " (max 8192x8192)" := by decide +kernel
  unfold Error.detail sizeComplaint
  simp only [side, String.append_assoc, limits]

/-- What becomes of a drawing at a scale where its sides take these numbers of pixels. -/
structure Bounded (result : Except Error Picture) (scale : Float32) (width height : Nat) : Prop where
  /-- Nothing else is refused at validation. -/
  scaled : (∃ e, result = .error e ∧ e.stage? = some .validation) ↔ ¬scale.isFinite ∨ scale ≤ 0
  sized : scale.isFinite → ¬scale ≤ 0 →
    ((∃ e, result = .error e ∧ e.stage? = some .render ∧ e.detail = sizeComplaint width height) ↔
      8192 < width ∨ 8192 < height)
  named : ∀ e, result = .error e → e = .badScale scale ∨ e = .pictureTooLarge width height
  painted : scale.isFinite → ¬scale ≤ 0 → width ≤ 8192 → height ≤ 8192 →
    ∃ p, result = .ok p ∧ p.width = width ∧ p.height = height ∧ 1 ≤ width ∧ 1 ≤ height

section Outcomes

variable {surface? : Nat → Nat → Option Surface} {d : Drawing} {width height : Nat}

theorem bounded_badScale (bad : ¬isScale scale) :
    Bounded (.error (.badScale scale)) scale width height where
  scaled := by
    rw [isScale_iff, not_and_or, not_not] at bad
    exact ⟨fun _ => bad, fun _ => ⟨_, rfl, rfl⟩⟩
  sized := fun finite positive => absurd (isScale_iff.2 ⟨finite, positive⟩) bad
  named := by
    rintro e ⟨⟩
    exact .inl rfl
  painted := fun finite positive => absurd (isScale_iff.2 ⟨finite, positive⟩) bad

theorem bounded_tooLarge (good : isScale scale) (large : 8192 < width ∨ 8192 < height) :
    Bounded (.error (.pictureTooLarge width height)) scale width height where
  scaled := by
    have usable := isScale_iff.1 good
    constructor
    · rintro ⟨e, ⟨⟩, ⟨⟩⟩
    · rintro (infinite | low)
      · exact absurd usable.1 infinite
      · exact absurd low usable.2
  sized := fun _ _ => ⟨fun _ => large, fun _ => ⟨_, rfl, rfl, detail_pictureTooLarge width height⟩⟩
  named := by
    rintro e ⟨⟩
    exact .inr rfl
  painted := by
    intro _ _ narrow low
    omega

theorem bounded_painted (good : isScale scale) (narrow : width ≤ 8192) (low : height ≤ 8192)
    (some_column : 1 ≤ width) (some_row : 1 ≤ height) (pixelAt : Nat → Nat → Pixel) :
    Bounded (.ok ⟨width, height, pixelAt⟩) scale width height where
  scaled := by
    have usable := isScale_iff.1 good
    constructor
    · rintro ⟨e, ⟨⟩, _⟩
    · rintro (infinite | low)
      · exact absurd usable.1 infinite
      · exact absurd low usable.2
  sized := by
    intro _ _
    constructor
    · rintro ⟨e, ⟨⟩, _⟩
    · omega
  named := nofun
  painted := fun _ _ _ _ => ⟨_, rfl, rfl, rfl, some_column, some_row⟩

/-- A surface with as many pixels as a picture makes one. -/
theorem picture?_of_pixels (width height : Nat) (pixelAt : Nat → Nat → Pixel) :
    (Surface.mk (width * height)).picture? width height pixelAt = some ⟨width, height, pixelAt⟩ := by
  rw [Surface.picture?, if_pos (Nat.mul_assoc 4 width height).le]

/-- If there are surfaces for all pictures that are neither empty nor too large, then drawings with positive
sides are refused at bad scales and at those that make them too large, and are painted at all others. -/
theorem toPictureOn_bounded
    (surfaces : ∀ w h, 1 ≤ w → w ≤ 8192 → 1 ≤ h → h ≤ 8192 → surface? w h = some ⟨w * h⟩)
    (finite : d.width.isFinite ∧ d.height.isFinite) (positive : 0 < d.width ∧ 0 < d.height)
    (scale : Float32) :
    Bounded (d.toPictureOn surface? scale) scale (sidePixels (d.width * scale))
      (sidePixels (d.height * scale)) := by
  unfold toPictureOn
  split
  case isFalse bad => exact bounded_badScale bad
  case isTrue good =>
    have usable := isScale_iff.1 good
    have above : 0 < scale := not_not.1 fun none => usable.2 ((Number.not_pos_iff_nonpos usable.1).1 none)
    dsimp only
    rw [pixels_eq finite.1 positive.1 usable.1 above, pixels_eq finite.2 positive.2 usable.1 above]
    have some_column := sidePixels_pos (d.width * scale)
    have some_row := sidePixels_pos (d.height * scale)
    generalize sidePixels (d.width * scale) = width at some_column
    generalize sidePixels (d.height * scale) = height at some_row
    split
    case isTrue large => exact bounded_tooLarge good large
    case isFalse fits =>
      obtain ⟨narrow, low⟩ : width ≤ 8192 ∧ height ≤ 8192 := by
        simpa only [maxSide, not_or, not_lt] using fits
      rw [surfaces width height some_column narrow some_row low]
      dsimp only
      rw [picture?_of_pixels]
      exact bounded_painted good narrow low some_column some_row _

end Outcomes

theorem ofSize?_of_fits : ∀ w h, 1 ≤ w → w ≤ 8192 → 1 ≤ h → h ≤ 8192 →
    Surface.ofSize? w h = some ⟨w * h⟩ := by
  intro w h some_column narrow some_row _
  have limit : 8192 ≤ Surface.rowLimit := by decide
  exact if_pos ⟨some_column, narrow.trans limit, some_row⟩

/-- A drawing without shapes. -/
def blankSheet : Drawing := ⟨210, 130, ⟨1, ⟨0, 0⟩⟩, []⟩

theorem toPictureOn_bounded_blankSheet :
    (∀ w h, 1 ≤ w → w ≤ 8192 → 1 ≤ h → h ≤ 8192 → Surface.ofSize? w h = some ⟨w * h⟩) ∧
    (blankSheet.width.isFinite ∧ blankSheet.height.isFinite) ∧
    (0 < blankSheet.width ∧ 0 < blankSheet.height) ∧
    Bounded (blankSheet.toPictureOn Surface.ofSize? 2) 2 420 260 := by
  have finite : blankSheet.width.isFinite ∧ blankSheet.height.isFinite := by decide +kernel
  have positive : 0 < blankSheet.width ∧ 0 < blankSheet.height := by decide +kernel
  have sides : sidePixels (blankSheet.width * 2) = 420 ∧ sidePixels (blankSheet.height * 2) = 260 := by
    decide +kernel
  have bounded := toPictureOn_bounded ofSize?_of_fits finite positive 2
  rw [sides.1, sides.2] at bounded
  exact ⟨ofSize?_of_fits, finite, positive, bounded⟩

end Drawing

end Emblem
