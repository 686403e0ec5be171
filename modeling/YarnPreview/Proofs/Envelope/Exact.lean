import Mathlib
import YarnPreview.Proofs.Envelope.Extent

/-!
# The box, by formulas

A box is built in steps: the fallback is judged as a whole, each length is raised to a
floor, judged and possibly replaced, and each centre is judged on its own.  This module
says what comes out, for limits that may be inverted, infinite or no numbers at all: one
formula for each size and one for each centre.

## Main definitions

* `TravelSpan.effective` — the span that a fallback stands for
* `Extent.directSize`, `Extent.directCenter` — size and centre along an axis, without a floor
* `EnvelopeBox.Follows` — a box has the size and the centre of each axis

## Main statements

* `Extent.ofBounds_eq_direct` — the floor decides nothing
* `EnvelopeBox.ofBounds_congr`, `EnvelopeBox.ofBounds_hasTravel` — the limits that a box
  looks at
* `EnvelopeBox.ofBounds_exact` — the six doubles of a box

## Why the floor is not seen

The floor lies below the length at which an axis counts as collapsed.  A length that the
floor raises is therefore one that the fallback replaces, before and after; this covers a
length that is no number, which the floor makes finite.  Every other length is left alone.
-/

namespace YarnPreview

/-! ### The fallback -/

namespace TravelSpan

/-- **The span that a fallback stands for**: itself when its three sizes are finite and
positive, and otherwise 480 by 320 by 120, however many of its sizes were usable. -/
def effective (span : TravelSpan) : TravelSpan :=
  if (span.x.isFinite = true ∧ 0.0 < span.x) ∧ (span.y.isFinite = true ∧ 0.0 < span.y) ∧
      (span.z.isFinite = true ∧ 0.0 < span.z) then span
  else ⟨480.0, 320.0, 120.0⟩

/-- A fallback is replaced as a whole. -/
theorem orStandard_eq_effective (span : TravelSpan) : span.orStandard = span.effective := by
  have hiff := isUsable_iff span
  simp only [usableSize_iff] at hiff
  rw [orStandard, effective]
  exact if_congr hiff rfl rfl

end TravelSpan

/-! ### One axis -/

namespace Extent

/-- **The size along an axis, without a floor**: the difference of the limits when it is
finite and at least a thousandth, and else the fallback. -/
def directSize (fallback : Float) : Option Bounds → Float
  | none => fallback
  | some b =>
      if (b.max - b.min).isFinite = true ∧ 0.001 ≤ b.max - b.min then b.max - b.min
      else fallback

/-- **The centre along an axis**: the middle of the limits when it is finite, and else the
origin. -/
def directCenter : Option Bounds → Float
  | none => 0.0
  | some b => if ((b.max + b.min) / 2.0).isFinite = true then (b.max + b.min) / 2.0 else 0.0

/-- A length that has not collapsed is above the floor. -/
theorem spanFloor_lt_of_collapseThreshold_le {length : Float} (hfinite : length.isFinite = true)
    (h : collapseThreshold ≤ length) : spanFloor < length := by
  have hfloor : spanFloor.isFinite = true := by decide
  have hthreshold : collapseThreshold.isFinite = true := by decide
  have hbelow : spanFloor < collapseThreshold := by decide
  rw [lt_iff_exactValue hfloor hthreshold] at hbelow
  rw [le_iff_exactValue hthreshold hfinite] at h
  rw [lt_iff_exactValue hfloor hfinite]
  exact lt_of_lt_of_le hbelow h

/-- **The floor decides nothing.**  A length that it raises is collapsed, raised or not, so
both judgements end with the fallback. -/
theorem size_floored (fallback length : Float) :
    (if (floored length).isFinite && decide (collapseThreshold ≤ floored length) then
        floored length
      else fallback) =
      if length.isFinite = true ∧ collapseThreshold ≤ length then length else fallback := by
  by_cases habove : spanFloor < length
  · simp only [floored, if_pos habove, Bool.and_eq_true, decide_eq_true_eq]
  · have hcollapsed : ¬ collapseThreshold ≤ spanFloor := by decide
    have hlength : ¬ (length.isFinite = true ∧ collapseThreshold ≤ length) := by
      rintro ⟨hfinite, hle⟩
      exact habove (spanFloor_lt_of_collapseThreshold_le hfinite hle)
    rw [floored, if_neg habove, if_neg hlength, decide_eq_false hcollapsed, Bool.and_false]
    rfl

/-- **The extent of an axis**, by its two formulas. -/
theorem ofBounds_eq_direct (fallback : Float) (bounds : Option Bounds) :
    ofBounds fallback bounds = ⟨directSize fallback bounds, directCenter bounds⟩ := by
  cases bounds with
  | none => rfl
  | some b =>
      rw [ofBounds, size_floored]
      rfl

end Extent

/-! ### The whole box -/

namespace EnvelopeBox

/-- A box looks at the travel axes only. -/
theorem ofBounds_congr {set other : BoundsSet} (hx : set.x = other.x) (hy : set.y = other.y)
    (hz : set.z = other.z) (fallback : TravelSpan) :
    ofBounds (some set) fallback = ofBounds (some other) fallback := by
  simp only [ofBounds, hx, hy, hz]

/-- **A set without travel draws the box of no set**, so the test for travel decides
nothing. -/
theorem ofBounds_hasTravel (set : BoundsSet) (fallback : TravelSpan) :
    ofBounds (if set.hasTravel then some set else none) fallback =
      ofBounds (some set) fallback := by
  split
  · rfl
  · next h =>
      simp only [BoundsSet.hasTravel, Bool.or_eq_true, not_or, Option.not_isSome_iff_eq_none,
        and_assoc] at h
      obtain ⟨hx, hy, hz⟩ := h
      rw [ofBounds_none]
      exact ofBounds_congr hx.symm hy.symm hz.symm fallback

/-- **A box follows the formulas** for limits that may be absent as a whole or axis by axis:
width, depth and height are the sizes along `x`, `y` and `z`, each with the fallback of its
own axis, and the centre has the three centres for its coordinates. -/
structure Follows (box : EnvelopeBox) (bounds : Option BoundsSet) (fallback : TravelSpan) :
    Prop where
  width : box.width = Extent.directSize fallback.effective.x (bounds.bind AxisMap.x)
  depth : box.depth = Extent.directSize fallback.effective.y (bounds.bind AxisMap.y)
  height : box.height = Extent.directSize fallback.effective.z (bounds.bind AxisMap.z)
  centerX : box.centerX = Extent.directCenter (bounds.bind AxisMap.x)
  centerY : box.centerY = Extent.directCenter (bounds.bind AxisMap.y)
  centerZ : box.centerZ = Extent.directCenter (bounds.bind AxisMap.z)

/-- A box is determined by the formulas that it follows. -/
theorem Follows.eq {box : EnvelopeBox} {bounds : Option BoundsSet} {fallback : TravelSpan}
    (h : box.Follows bounds fallback) :
    box =
      { width := Extent.directSize fallback.effective.x (bounds.bind AxisMap.x)
        depth := Extent.directSize fallback.effective.y (bounds.bind AxisMap.y)
        height := Extent.directSize fallback.effective.z (bounds.bind AxisMap.z)
        centerX := Extent.directCenter (bounds.bind AxisMap.x)
        centerY := Extent.directCenter (bounds.bind AxisMap.y)
        centerZ := Extent.directCenter (bounds.bind AxisMap.z) } := by
  rw [← h.width, ← h.depth, ← h.height, ← h.centerX, ← h.centerY, ← h.centerZ]

/-- **The box of some limits follows the formulas.** -/
theorem follows_ofBounds (bounds : Option BoundsSet) (fallback : TravelSpan) :
    (ofBounds bounds fallback).Follows bounds fallback := by
  cases bounds with
  | none =>
      rw [ofBounds, TravelSpan.orStandard_eq_effective]
      exact ⟨rfl, rfl, rfl, rfl, rfl, rfl⟩
  | some set =>
      simp only [ofBounds, Extent.ofBounds_eq_direct, TravelSpan.orStandard_eq_effective]
      exact ⟨rfl, rfl, rfl, rfl, rfl, rfl⟩

/-- **The six doubles of a box.**  Its sizes are finite and positive and its centre is
finite.  Each size is the length along its axis when that is finite and at least a
thousandth, and the size of the effective fallback otherwise; each centre is the middle of
the limits when that is finite, and zero otherwise.  The floor under lengths occurs nowhere
in these formulas, and a set that says nothing about travel draws the box of no set. -/
theorem ofBounds_exact :
    (∀ (bounds : Option BoundsSet) (fallback : TravelSpan),
      (ofBounds bounds fallback).Drawable ∧ (ofBounds bounds fallback).Follows bounds fallback) ∧
      ∀ (set : BoundsSet) (fallback : TravelSpan),
        set.x = none → set.y = none → set.z = none →
          ofBounds (some set) fallback = ofBounds none fallback := by
  refine ⟨?_, ?_⟩
  · intro bounds fallback
    exact ⟨drawable_ofBounds bounds fallback, follows_ofBounds bounds fallback⟩
  · intro set fallback hx hy hz
    rw [ofBounds_none]
    exact ofBounds_congr hx hy hz fallback

/-- Limits with a length and a centre of its own along every axis. -/
def offsetLimits : BoundsSet :=
  ⟨some ⟨-10.0, 40.0⟩, some ⟨5.0, 27.0⟩, some ⟨2.0, 12.0⟩, none⟩

/-- Limits that overflow along `x`, hold no number along `y` and are inverted along `z`. -/
def wildLimits : BoundsSet :=
  ⟨some ⟨-1.7e308, 1.7e308⟩, some ⟨notANumber, 1.0⟩, some ⟨5.0, 2.0⟩, none⟩

/-- Limits of the extrusion axis only. -/
def extruderLimits : BoundsSet :=
  ⟨none, none, none, some ⟨0.0, 9.0⟩⟩

/-- Offset limits give all six doubles; wild limits leave all sizes to a usable fallback and
give a centre along `z` alone; limits of the extruder, with a fallback one size of which is no
number, draw the box of no limits. -/
theorem ofBounds_exact_extruder :
    (extruderLimits.x = none ∧ extruderLimits.y = none ∧ extruderLimits.z = none ∧
      ofBounds (some extruderLimits) ⟨10.0, notANumber, 30.0⟩ =
        ofBounds none ⟨10.0, notANumber, 30.0⟩) ∧
      ofBounds none ⟨10.0, notANumber, 30.0⟩ = ⟨480.0, 320.0, 120.0, 0.0, 0.0, 0.0⟩ ∧
      ofBounds (some offsetLimits) ⟨1.0, 2.0, 3.0⟩ = ⟨50.0, 22.0, 10.0, 15.0, 16.0, 7.0⟩ ∧
      ofBounds (some wildLimits) ⟨10.0, 20.0, 30.0⟩ = ⟨10.0, 20.0, 30.0, 0.0, 0.0, 3.5⟩ := by
  obtain ⟨hformulas, hset⟩ := ofBounds_exact
  refine ⟨⟨rfl, rfl, rfl, hset _ _ rfl rfl rfl⟩, ?_, ?_, ?_⟩
  · exact (hformulas _ _).2.eq.trans (by decide +kernel)
  · exact (hformulas _ _).2.eq.trans (by decide +kernel)
  · exact (hformulas _ _).2.eq.trans (by decide +kernel)

end EnvelopeBox

end YarnPreview
