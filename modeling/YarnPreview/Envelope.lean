import YarnPreview.Bounds

/-!
# The travel envelope

The viewer draws the machine's travel as a box.  Where the machine's limits are
absent or collapsed, a fallback span stands in for the size of the box along
that axis, so there is always a box to draw.

## Main definitions

* `TravelSpan` — the fallback size, with `TravelSpan.standard`
* `EnvelopeBox` — size and centre of the box
* `EnvelopeBox.ofBounds` — the box of a bounds set

## Design notes

**A fallback span is taken whole or not at all.**  If one of its three sizes is
not finite and positive, the standard span replaces all of them.

**Size and centre are decided separately.**  An axis whose limits nearly
coincide takes the fallback size and keeps its own centre; an axis whose middle
overflows is drawn at the origin and may keep its own size.
-/

namespace YarnPreview

/-- **A fallback size of the box**, in millimetres. -/
structure TravelSpan where
  x : Float
  y : Float
  z : Float
  deriving DecidableEq

namespace TravelSpan

/-- The span assumed when no machine is known. -/
def standard : TravelSpan := ⟨480.0, 320.0, 120.0⟩

/-- A size along one axis that a box can have. -/
def usableSize (size : Float) : Bool :=
  size.isFinite && decide (0.0 < size)

/-- All three sizes are finite and positive. -/
def isUsable (span : TravelSpan) : Bool :=
  usableSize span.x && usableSize span.y && usableSize span.z

/-- The span itself when it is usable, the standard span otherwise. -/
def orStandard (span : TravelSpan) : TravelSpan :=
  if span.isUsable then span else standard

/-- **The span of a record**: the sizes under `x`, `y` and `z`, or the standard
span when any of them is unusable or the record is no object. -/
def ofRecord (record : Value) : TravelSpan :=
  match record.fields? with
  | some fields =>
      let size := Value.coerceField fields
      (TravelSpan.mk (size "x") (size "y") (size "z")).orStandard
  | none => standard

theorem isUsable_standard : standard.isUsable = true := by decide

/-- What `orStandard` gives is usable. -/
theorem isUsable_orStandard (span : TravelSpan) : span.orStandard.isUsable = true := by
  unfold orStandard
  split
  · assumption
  · exact isUsable_standard

/-- A span in a record. -/
def toRecord (span : TravelSpan) : Value :=
  .ofFields
    [("x", .ofFloatOrNull span.x), ("y", .ofFloatOrNull span.y), ("z", .ofFloatOrNull span.z)]

/-- A span decoded strictly: three numbers. -/
def decode? (value : Value) : Option TravelSpan := do
  match ← value.layout? ["x", "y", "z"] 0 with
  | [x, y, z] =>
      let x ← Value.required? Value.float? x
      let y ← Value.required? Value.float? y
      let z ← Value.required? Value.float? z
      return { x, y, z }
  | _ => none

end TravelSpan

/-! ### Extent along one axis -/

/-- Lengths are raised to this one before they are judged. -/
def spanFloor : Float := 0.0001

/-- A length below this one is no machine data; the fallback size is drawn. -/
def collapseThreshold : Float := 0.001

/-- Size and centre along one axis. -/
structure Extent where
  size : Float
  center : Float
  deriving DecidableEq

namespace Extent

/-- The larger of a length and `spanFloor`; a NaN length gives the floor. -/
def floored (length : Float) : Float :=
  if spanFloor < length then length else spanFloor

/-- **The extent of an axis.**  Without bounds it is the fallback size at the
origin. -/
def ofBounds (fallback : Float) : Option Bounds → Extent
  | none => ⟨fallback, 0.0⟩
  | some b =>
      let length := floored b.span
      let center := b.center
      { size :=
          if length.isFinite && decide (collapseThreshold ≤ length) then length else fallback
        center := if center.isFinite then center else 0.0 }

@[simp] theorem ofBounds_none (fallback : Float) :
    ofBounds fallback none = ⟨fallback, 0.0⟩ := rfl

end Extent

/-- **The travel box**: width, depth and height are the sizes along `x`, `y` and
`z`. -/
structure EnvelopeBox where
  width : Float
  depth : Float
  height : Float
  centerX : Float
  centerY : Float
  centerZ : Float
  deriving DecidableEq

namespace EnvelopeBox

/-- The box with the given extents. -/
def ofExtents (x y z : Extent) : EnvelopeBox where
  width := x.size
  depth := y.size
  height := z.size
  centerX := x.center
  centerY := y.center
  centerZ := z.center

/-- A box of the given size around the origin. -/
def atOrigin (span : TravelSpan) : EnvelopeBox where
  width := span.x
  depth := span.y
  height := span.z
  centerX := 0.0
  centerY := 0.0
  centerZ := 0.0

/-- **The box of a bounds set**, with a fallback span.  No set at all is a box of
the fallback size around the origin. -/
def ofBounds (bounds : Option BoundsSet) (fallback : TravelSpan) : EnvelopeBox :=
  let span := fallback.orStandard
  match bounds with
  | none => atOrigin span
  | some set =>
      ofExtents (.ofBounds span.x set.x) (.ofBounds span.y set.y) (.ofBounds span.z set.z)

/-- No set at all draws the box of the set that knows nothing. -/
theorem ofBounds_none (fallback : TravelSpan) :
    ofBounds none fallback = ofBounds (some AxisMap.empty) fallback := by
  simp only [ofBounds, atOrigin, ofExtents, AxisMap.empty, Extent.ofBounds_none]

/-- The case of an absent set decides nothing. -/
theorem ofBounds_getD (bounds : Option BoundsSet) (fallback : TravelSpan) :
    ofBounds (some (bounds.getD AxisMap.empty)) fallback = ofBounds bounds fallback := by
  cases bounds with
  | none => exact (ofBounds_none fallback).symm
  | some set => rfl

/-- A box in a record. -/
def toRecord (box : EnvelopeBox) : Value :=
  .ofFields
    [("width", .ofFloatOrNull box.width), ("depth", .ofFloatOrNull box.depth),
     ("height", .ofFloatOrNull box.height), ("centerX", .ofFloatOrNull box.centerX),
     ("centerY", .ofFloatOrNull box.centerY), ("centerZ", .ofFloatOrNull box.centerZ)]

end EnvelopeBox

end YarnPreview
