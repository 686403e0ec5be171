import YarnPreview.Bounds
import YarnPreview.Messages

/-!
# Plan against machine

A plan fits a machine when the machine has room for every movement of the plan.
The comparison reports, axis by axis, what is missing on either side and where
the plan sticks out.

## Main definitions

* `AxisComparison` — the two bounds of an axis and the ends at which the plan
  sticks out
* `Comparison.ofSets`, `Comparison.ofRecords` — the comparison of two sides
* `Comparison.status` — the comparison in a sentence

## Design notes

**An axis that one side lacks is reported and never compared.**  So it has no
detail, it cannot exceed, and the plan does not fit.

**A comparison is data.**  `Comparison` does not tie its lists and flags to one
another; `Comparison.ofSets` does.  `Comparison.status` reads whatever it is
given, in a fixed order of precedence: absent sides first, then missing axes of
the machine, then those of the plan, then the fit.
-/

namespace YarnPreview

/-- **One axis compared**: the bounds of both sides, and whether the plan goes
below the machine's lower limit or above its upper one. -/
structure AxisComparison where
  planner : Bounds
  machine : Bounds
  overrunLow : Bool
  overrunHigh : Bool
  deriving DecidableEq

namespace AxisComparison

/-- The comparison of two bounds.  A NaN limit overruns nothing. -/
def ofBounds (planner machine : Bounds) : AxisComparison where
  planner
  machine
  overrunLow := planner.min < machine.min
  overrunHigh := machine.max < planner.max

/-- Does the plan stick out at either end? -/
def exceeds (c : AxisComparison) : Bool :=
  c.overrunLow || c.overrunHigh

/-- The end or ends at which the plan sticks out, in words. -/
def side (c : AxisComparison) : String :=
  match c.overrunLow, c.overrunHigh with
  | true, true => "both ends"
  | true, false => "below min"
  | false, _ => "above max"

/-- An axis comparison in a record. -/
def toRecord (c : AxisComparison) : Value :=
  .ofFields
    [("planner", c.planner.toRecord), ("machine", c.machine.toRecord),
     ("overrunLow", .bool c.overrunLow), ("overrunHigh", .bool c.overrunHigh)]

end AxisComparison

/-- **The comparison of a plan with a machine.** -/
structure Comparison where
  /-- The plan lacks at least one axis. -/
  missingPlanner : Bool
  /-- The machine lacks at least one axis. -/
  missingMachine : Bool
  missingPlannerAxes : List Axis
  missingMachineAxes : List Axis
  /-- The machine has room for the whole plan. -/
  fits : Bool
  /-- The axes on which the plan sticks out. -/
  exceedingAxes : List Axis
  /-- The axes known on both sides. -/
  details : AxisMap AxisComparison
  deriving DecidableEq

namespace Comparison

/-- **Comparing two bounds sets.**  The plan fits when no axis is missing on
either side and none exceeds. -/
def ofSets (planner machine : BoundsSet) : Comparison :=
  let details := AxisMap.zipWith AxisComparison.ofBounds planner machine
  let exceeding := Axis.all.filter fun axis =>
    (details.get? axis).any AxisComparison.exceeds
  { missingPlanner := !planner.missing.isEmpty
    missingMachine := !machine.missing.isEmpty
    missingPlannerAxes := planner.missing
    missingMachineAxes := machine.missing
    fits := planner.missing.isEmpty && machine.missing.isEmpty && exceeding.isEmpty
    exceedingAxes := exceeding
    details }

/-- **Comparing two records** by the bounds sets they describe. -/
def ofRecords (planner machine : Value) : Comparison :=
  ofSets (.ofRecord planner) (.ofRecord machine)

/-- The axes on which the plan sticks out, each with its side.  An axis without
a detail is left out. -/
def overruns (c : Comparison) : List String :=
  c.exceedingAxes.filterMap fun axis =>
    (c.details.get? axis).map fun detail => axis.name ++ " " ++ detail.side

/-- Does a list of missing axes cover all of them? -/
def coversAll (axes : List Axis) : Bool :=
  axes.length == Axis.all.length

/-- **The comparison in a sentence.** -/
def status (c : Comparison) : String :=
  match coversAll c.missingPlannerAxes, coversAll c.missingMachineAxes with
  | true, true => Messages.standard.boundsComparison
  | true, false => Messages.standard.planBounds
  | false, true => Messages.standard.machineEnvelope
  | false, false =>
      if c.missingMachine then
        Messages.standard.machineAxes ++ Axis.listing c.missingMachineAxes
      else if c.missingPlanner then
        "Planner bounds incomplete: missing " ++ Axis.listing c.missingPlannerAxes
      else if c.fits then
        "Planner bounds fit within the machine travel envelope."
      else
        "Planner exceeds machine travel: " ++ ", ".intercalate c.overruns

/-- A comparison in a record. -/
def toRecord (c : Comparison) : Value :=
  let axes (list : List Axis) : Value := .array (list.map Axis.toRecord)
  .ofFields
    [("missingPlanner", .bool c.missingPlanner),
     ("missingMachine", .bool c.missingMachine),
     ("missingPlannerAxes", axes c.missingPlannerAxes),
     ("missingMachineAxes", axes c.missingMachineAxes),
     ("fits", .bool c.fits),
     ("exceedingAxes", axes c.exceedingAxes),
     ("details", c.details.toSparseRecord AxisComparison.toRecord)]

end Comparison

end YarnPreview
