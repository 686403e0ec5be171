import YarnPreview.Bounds
import YarnPreview.Feed.Event

/-!
# Plans

A plan comes in one of two shapes.  The flat one holds bounds under axis names
and a list of events; the export of the planner holds bounds under names with a
unit suffix and a list of commands, each with the machine state it leaves
behind.  Both are read into one `Plan`.

## Main definitions

* `Plan` — bounds record, events and defaults
* `Plan.ofRecord` — either shape
* `Plan.boundsSet`, `Plan.baseline?` — the bounds, and the extrusion that the
  plan starts from

## Design notes

**Suffixed names are copied, not renamed.**  A bounds field `x_mm` is also filed
under `x`, unless `x` is there already, even as null.  Presence is judged on the
record as it came, so `x_mm_mm` gives `x_mm` at most and never `x`.

**An array of events takes precedence**, even an empty one; commands count only
without it.  Among commands those that are no objects are dropped.
-/

namespace YarnPreview

/-- **A plan to preview.** -/
structure Plan where
  /-- The bounds record, with suffixed names resolved. -/
  bounds : Value
  events : List Event
  /-- The settings that the plan was made with, passed through unread. -/
  defaults : Value

namespace Plan

/-- The suffix by which a name gives its unit. -/
def unitSuffix : List Char := ['_', 'm', 'm']

/-- A name without its unit suffix, if it has one. -/
def withoutUnit? (name : String) : Option String :=
  let letters := name.toList
  if unitSuffix.isSuffixOf letters then
    some (String.ofList (letters.take (letters.length - unitSuffix.length)))
  else none

/-- One field filed under its name without unit, unless the fields as they came
have that name. -/
def fileWithoutUnit (given record : Fields Value) (name : String) (entry : Value) :
    Fields Value :=
  match withoutUnit? name with
  | some short => if (given.get? short).isNone then record.insert short entry else record
  | none => record

/-- The fields of a bounds record, with every suffixed field also under its name
without unit. -/
def resolveUnits (given : Fields Value) : Fields Value :=
  given.foldl (fun record field => fileWithoutUnit given record field.1 field.2) given

/-- A bounds record with its suffixed names resolved; what is no object stays as
it is. -/
def resolveBounds (bounds : Value) : Value :=
  bounds.fields?.elim bounds (.object ∘ resolveUnits)

/-- The state fields of a command, by the names that events have for them. -/
def stateNames : List (String × String) :=
  [("x", "x_mm"), ("y", "y_mm"), ("z", "z_mm"), ("extrusion", "extrusion_mm")]

/-- The fields of the event that a command describes: its comment, and what its
state gives, each only if it is there. -/
def commandFields (command : Value) : Fields Value :=
  let state := (command.field? "state").getD .null
  let comment := (command.field? "comment").toList.map ("comment", ·)
  let numbers := stateNames.filterMap fun pair => (state.field? pair.2).map (pair.1, ·)
  Fields.ofList (comment ++ numbers)

/-- **The events of a list of commands**, one for each that is an object. -/
def eventsOfCommands (commands : List Value) : List Event :=
  (commands.filter (·.fields?.isSome)).map fun command =>
    Event.ofFields (commandFields command)

/-- The events of a payload: its event array, or else those of its commands. -/
def eventsOfRecord (payload : Value) : List Event :=
  match (payload.field? "events").bind Value.items? with
  | some events => events.map Event.ofRecord
  | none => eventsOfCommands (((payload.field? "commands").bind Value.items?).getD [])

/-- **Reading a plan** from a payload of either shape. -/
def ofRecord (payload : Value) : Plan where
  bounds := resolveBounds ((payload.field? "bounds").getD .null)
  events := eventsOfRecord payload
  defaults := (payload.field? "defaults").getD .null

/-- The plan before any payload is loaded. -/
def empty : Plan where
  bounds := .null
  events := []
  defaults := .null

/-- The bounds of the plan. -/
def boundsSet (plan : Plan) : BoundsSet :=
  .ofRecord plan.bounds

/-- **The extrusion that the plan starts from**: the lower limit of its
extrusion bounds. -/
def baseline? (plan : Plan) : Option Float :=
  (plan.boundsSet.get? .e).map Bounds.min

end Plan

end YarnPreview
