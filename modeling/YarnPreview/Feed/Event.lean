import YarnPreview.Value.Coercion
import YarnPreview.Value.Decoding

/-!
# Plan events

A plan is a list of events, one per machine step; the position in the list is
the step's index.  An event may carry a comment, a position and the extrusion
reached by the step.

## Main definitions

* `Event` — one step
* `Event.ofRecord`, `Event.listOfRecord` — the lenient readers
* `Event.decode?` — the strict one

## Design notes

**Positions in the list stay aligned.**  An entry that is no object still reads
as an event, the empty one, so that the indices of later steps do not shift.

**Absent and null differ.**  A missing number is absent; a null one is zero, by
numeric coercion.
-/

namespace YarnPreview

/-- **One step of a plan.** -/
structure Event where
  comment : Option String
  /-- The extrusion reached by the step. -/
  extrusion : Option Float
  x : Option Float
  y : Option Float
  z : Option Float
  deriving DecidableEq

namespace Event

/-- The step that says nothing. -/
def empty : Event := ⟨none, none, none, none, none⟩

/-- The event that the fields of an entry describe: a comment if it is a text,
and each number if it is finite. -/
def ofFields (fields : Fields Value) : Event where
  comment := (fields.get? "comment").bind Value.string?
  extrusion := Value.finiteField? fields "extrusion"
  x := Value.finiteField? fields "x"
  y := Value.finiteField? fields "y"
  z := Value.finiteField? fields "z"

/-- **The event of an entry**, empty when the entry is no object. -/
def ofRecord (entry : Value) : Event :=
  entry.fields?.elim empty ofFields

/-- **The events of a record**: one per item of an array; anything else has
none. -/
def listOfRecord (record : Value) : List Event :=
  (record.items?.getD []).map ofRecord

/-- An event in a record. -/
def toRecord (event : Event) : Value :=
  let number := Value.ofOption Value.ofFloatOrNull
  .ofFields
    [("comment", .ofOption .string event.comment), ("extrusion", number event.extrusion),
     ("x", number event.x), ("y", number event.y), ("z", number event.z)]

/-- An event decoded strictly.  Every member may be absent, and an array may
leave out any number of them at its end. -/
def decode? (value : Value) : Option Event := do
  match ← value.layout? ["comment", "extrusion", "x", "y", "z"] 5 with
  | [comment, extrusion, x, y, z] =>
      let comment ← Value.optional? Value.string? comment
      let extrusion ← Value.optional? Value.float? extrusion
      let x ← Value.optional? Value.float? x
      let y ← Value.optional? Value.float? y
      let z ← Value.optional? Value.float? z
      return { comment, extrusion, x, y, z }
  | _ => none

end Event

end YarnPreview
