import YarnPreview.Axis
import YarnPreview.Value.Coercion
import YarnPreview.Value.Decoding

/-!
# Bounds

How far a plan moves along an axis, or a machine can move.  Exports disagree on
the names of the two limits and on how they spell numbers; a bound that cannot
be read is simply absent.

## Main definitions

* `Bounds` — a lower and an upper limit, with `Bounds.span` and `Bounds.center`
* `Bounds.normalize?` — the bounds that a record entry describes
* `BoundsSet`, `BoundsSet.ofRecord` — the bounds of a whole record

## The two fall-through rules

**Within an entry, the first defined alias decides.**  Each limit goes by four
names.  The first one that is present and not null is read, and if its value is
no finite number the entry is unusable; later aliases are not tried.

**Within a record, the first usable entry decides.**  The extrusion axis goes by
two names.  If the entry under the first is unusable, the second is tried.

### Raw bounds

`Bounds` itself promises nothing about its limits: it may be inverted or hold a
NaN.  `Bounds.normalize?` only ever gives bounds with finite limits in order,
which is `Bounds.isNormal`.
-/

namespace YarnPreview

/-- **Bounds along an axis**, in millimetres. -/
structure Bounds where
  min : Float
  max : Float
  deriving DecidableEq

namespace Bounds

/-- The length of the interval. -/
def span (b : Bounds) : Float := b.max - b.min

/-- The middle of the interval. -/
def center (b : Bounds) : Float := (b.max + b.min) / 2.0

/-- Finite limits, the upper one not below the lower. -/
def isNormal (b : Bounds) : Bool :=
  b.min.isFinite && b.max.isFinite && !decide (b.max < b.min)

/-- The names of the lower limit, the preferred one first. -/
def minAliases : List String := ["min", "min_mm", "minimum", "low"]

/-- The names of the upper limit, the preferred one first. -/
def maxAliases : List String := ["max", "max_mm", "maximum", "high"]

/-- The first of several fields that is present and not null. -/
def firstDefined? (fields : Fields Value) (aliases : List String) : Option Value :=
  aliases.findSome? fun key => (fields.get? key).filter (!·.isNull)

/-- A limit by its aliases; NaN when none of them is defined. -/
def limit (fields : Fields Value) (aliases : List String) : Float :=
  (firstDefined? fields aliases).elim notANumber Value.coerce

/-- The two limits that the fields of an entry give, usable or not. -/
def ofFields (fields : Fields Value) : Bounds :=
  ⟨limit fields minAliases, limit fields maxAliases⟩

/-- **Normalisation**: the bounds that an entry describes, when it is an object
and both limits are finite and in order. -/
def normalize? (entry : Value) : Option Bounds :=
  (entry.fields?.map ofFields).filter isNormal

/-- What normalisation gives is normal. -/
theorem isNormal_of_normalize? {entry : Value} {b : Bounds} (h : normalize? entry = some b) :
    b.isNormal = true :=
  (Option.filter_eq_some_iff.mp h).2

/-- Bounds in a record. -/
def toRecord (b : Bounds) : Value :=
  .ofFields [("min", .ofFloatOrNull b.min), ("max", .ofFloatOrNull b.max)]

/-- Bounds decoded strictly: two numbers, in whatever order and of whatever
size. -/
def decode? (value : Value) : Option Bounds := do
  match ← value.layout? ["min", "max"] 0 with
  | [min, max] =>
      let min ← Value.required? Value.float? min
      let max ← Value.required? Value.float? max
      return { min, max }
  | _ => none

end Bounds

/-- **The bounds of a record**: one `Bounds` for each axis it describes. -/
abbrev BoundsSet : Type := AxisMap Bounds

namespace BoundsSet

/-- The bounds of an axis: those of the first entry, in the order of the axis's
names, that normalises. -/
def axisOfFields? (fields : Fields Value) (axis : Axis) : Option Bounds :=
  axis.recordKeys.findSome? fun key => (fields.get? key).bind Bounds.normalize?

/-- **The bounds set of a record**, filled axis by axis.  What is not an object
describes no axis. -/
def ofRecord (record : Value) : BoundsSet :=
  match record.fields? with
  | none => AxisMap.empty
  | some fields =>
      Axis.all.foldl (fun set axis => set.set axis (axisOfFields? fields axis)) AxisMap.empty

/-- Filling one axis does not undo another. -/
@[simp] theorem get?_ofRecord (record : Value) (axis : Axis) :
    (ofRecord record).get? axis = record.fields?.bind (axisOfFields? · axis) := by
  unfold ofRecord
  cases record.fields? with
  | none => simp
  | some fields =>
      simp only [Axis.all, List.foldl_cons, List.foldl_nil, AxisMap.get?_set, Option.bind_some]
      cases axis <;> rfl

/-- Is there a bound on at least one travel axis? -/
def hasTravel (set : BoundsSet) : Bool :=
  set.x.isSome || set.y.isSome || set.z.isSome

/-- A bounds set in a record. -/
def toRecord (set : BoundsSet) : Value :=
  AxisMap.toRecord Bounds.toRecord set

/-- A bounds set decoded strictly. -/
def decode? (value : Value) : Option BoundsSet := do
  match ← value.layout? (Axis.all.map Axis.name) 0 with
  | [x, y, z, e] =>
      let x ← Value.optional? Bounds.decode? x
      let y ← Value.optional? Bounds.decode? y
      let z ← Value.optional? Bounds.decode? z
      let e ← Value.optional? Bounds.decode? e
      return { x, y, z, e }
  | _ => none

end BoundsSet

end YarnPreview
