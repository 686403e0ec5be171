import YarnPreview.Bounds
import YarnPreview.Text.Letters

/-!
# Machine profiles

A machine profile names its axes as it likes, `X` or `x`, and gives the travel of
each by a pair of limits of its own.  This module brings a profile into the form
in which plans give their bounds.

## Main definitions

* `Machine.axes?` — where a profile keeps its axes
* `Machine.adaptEntry` — travel limits as ordinary bounds
* `Machine.boundsRecord`, `Machine.bounds` — the profile as a bounds record, and
  the bounds set of that

## Two spellings of one axis

Names are lowered to small letters, so two entries may stand for one axis.  The
entry already spelled in small letters wins.  Among the others it is the first
in ascending order of names.
-/

namespace YarnPreview.Machine

/-- The axes of a profile: its field `axes` when that is an object, otherwise
the profile itself. -/
def axes? (profile : Value) : Option (Fields Value) :=
  ((profile.field? "axes").bind Value.fields?).or profile.fields?

/-- A field that is present and not null. -/
def definedField? (entry : Value) (name : String) : Option Value :=
  (entry.field? name).filter (!·.isNull)

/-- **An axis entry as bounds**: two defined travel limits become `min` and
`max`, and any other entry stays as it is, so that its own names for the limits
can still be read. -/
def adaptEntry (entry : Value) : Value :=
  match definedField? entry "travel_min_mm", definedField? entry "travel_max_mm" with
  | some min, some max => .ofFields [("min", min), ("max", max)]
  | _, _ => entry

/-- One more entry: it is taken when its name is already in small letters, or
when no entry has taken that name. -/
def addEntry (record : Fields Value) (name : String) (entry : Value) : Fields Value :=
  let lowered := Text.lowercase name
  if lowered = name ∨ (record.get? lowered).isNone then
    record.insert lowered (adaptEntry entry)
  else record

/-- The entries of all axes, under names in small letters. -/
def adaptAxes (axes : Fields Value) : Fields Value :=
  axes.foldl (fun record field => addEntry record field.1 field.2) []

/-- **A profile as a bounds record**; null when the profile is no object. -/
def boundsRecord (profile : Value) : Value :=
  .ofOption (fun axes => .object (adaptAxes axes)) (axes? profile)

/-- The bounds set of a profile. -/
def bounds (profile : Value) : BoundsSet :=
  .ofRecord (boundsRecord profile)

@[simp] theorem adaptAxes_nil : adaptAxes [] = [] := rfl

end YarnPreview.Machine
