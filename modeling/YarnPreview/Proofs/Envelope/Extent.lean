import Mathlib
import YarnPreview.Envelope
import YarnPreview.Proofs.Number.Exact

/-!
# The box can always be drawn

Whatever limits the machine has and whatever fallback is given, the box has a
finite positive size along each axis and a finite centre.  Nothing is assumed of
the limits: they may be inverted, infinite or no numbers at all.

## Main definitions

* `EnvelopeBox.Drawable` — finite centre, finite and positive sizes

## Main statements

* `Extent.finite_pos_size_ofBounds` — the size along an axis is usable when the fallback is
* `EnvelopeBox.drawable_ofBounds` — every box that is built can be drawn
-/

namespace YarnPreview

namespace TravelSpan

/-- A usable size is finite and positive. -/
theorem usableSize_iff (size : Float) :
    usableSize size = true ↔ size.isFinite = true ∧ 0.0 < size := by
  rw [usableSize, Bool.and_eq_true, decide_eq_true_eq]

/-- A usable span has three usable sizes. -/
theorem isUsable_iff (span : TravelSpan) :
    span.isUsable = true ↔
      usableSize span.x = true ∧ usableSize span.y = true ∧ usableSize span.z = true := by
  rw [isUsable, Bool.and_eq_true, Bool.and_eq_true, and_assoc]

end TravelSpan

namespace Extent

/-- A finite length that has not collapsed is positive. -/
theorem pos_of_collapseThreshold_le {length : Float} (hfinite : length.isFinite = true)
    (h : collapseThreshold ≤ length) : 0.0 < length := by
  have hzero : (0.0 : Float).isFinite = true := by decide
  have hthreshold : collapseThreshold.isFinite = true := by decide
  have hpos : (0.0 : Float) < collapseThreshold := by decide
  rw [lt_iff_exactValue hzero hthreshold] at hpos
  rw [le_iff_exactValue hthreshold hfinite] at h
  rw [lt_iff_exactValue hzero hfinite]
  exact lt_of_lt_of_le hpos h

/-- **The size along an axis is usable**, with or without bounds, when the fallback
is. -/
theorem finite_pos_size_ofBounds {fallback : Float} (h : TravelSpan.usableSize fallback = true)
    (bounds : Option Bounds) :
    (ofBounds fallback bounds).size.isFinite = true ∧ 0.0 < (ofBounds fallback bounds).size := by
  rw [TravelSpan.usableSize_iff] at h
  cases bounds with
  | none => exact h
  | some b =>
      simp only [ofBounds, Bool.and_eq_true, decide_eq_true_eq]
      split
      · next hlength => exact ⟨hlength.1, pos_of_collapseThreshold_le hlength.1 hlength.2⟩
      · exact h

/-- **The centre along an axis is finite**; one that overflows is the origin. -/
theorem isFinite_center_ofBounds (fallback : Float) (bounds : Option Bounds) :
    (ofBounds fallback bounds).center.isFinite = true := by
  have hzero : (0.0 : Float).isFinite = true := by decide
  cases bounds with
  | none => exact hzero
  | some b =>
      simp only [ofBounds]
      split
      · next hcenter => exact hcenter
      · exact hzero

end Extent

namespace EnvelopeBox

/-- **A box that can be drawn**: its centre is finite, and its sizes are finite and
positive. -/
structure Drawable (box : EnvelopeBox) : Prop where
  width : box.width.isFinite = true ∧ 0.0 < box.width
  depth : box.depth.isFinite = true ∧ 0.0 < box.depth
  height : box.height.isFinite = true ∧ 0.0 < box.height
  centerX : box.centerX.isFinite = true
  centerY : box.centerY.isFinite = true
  centerZ : box.centerZ.isFinite = true

/-- **Every box that is built can be drawn.** -/
theorem drawable_ofBounds (bounds : Option BoundsSet) (fallback : TravelSpan) :
    (ofBounds bounds fallback).Drawable := by
  obtain ⟨hx, hy, hz⟩ := (TravelSpan.isUsable_iff _).mp (TravelSpan.isUsable_orStandard fallback)
  rw [← ofBounds_getD]
  exact
    { width := Extent.finite_pos_size_ofBounds hx _
      depth := Extent.finite_pos_size_ofBounds hy _
      height := Extent.finite_pos_size_ofBounds hz _
      centerX := Extent.isFinite_center_ofBounds _ _
      centerY := Extent.isFinite_center_ofBounds _ _
      centerZ := Extent.isFinite_center_ofBounds _ _ }

end EnvelopeBox

end YarnPreview
