import YarnPreview.Value.Basic

/-!
# Fallback messages

What the viewer says while it has nothing to show.  The texts are fixed; they
are gathered in one structure so that the viewer can be handed all of them at
once.
-/

namespace YarnPreview

/-- The texts shown when data is absent. -/
structure Messages where
  /-- No axis of the machine has usable limits. -/
  machineEnvelope : String
  /-- Some axes of the machine lack limits; the axes follow. -/
  machineAxes : String
  /-- Neither side has any bounds. -/
  boundsComparison : String
  /-- The plan has no bounds. -/
  planBounds : String
  /-- No steps are loaded. -/
  yarnFlow : String
  /-- No feed pulses are queued. -/
  yarnQueue : String
  /-- No feed pulse lies ahead. -/
  yarnUpcoming : String

namespace Messages

/-- **The texts of the viewer.** -/
def standard : Messages where
  machineEnvelope :=
    "Machine profile envelope unavailable. Include travel_min_mm and travel_max_mm for each axis."
  machineAxes :=
    "Machine profile envelope unavailable \u2014 add travel_min_mm and travel_max_mm for: "
  boundsComparison :=
    "Bounds comparison unavailable. Export planner bounds and machine profile limits to compare."
  planBounds :=
    "Planner bounds unavailable. Export --format planner payloads with bounds to preview the motion envelope."
  yarnFlow := "Yarn flow monitor idle \u2014 load a planner preview to track feed events."
  yarnQueue := "Remaining feed pulses: Awaiting planner preview\u2026"
  yarnUpcoming := "Next feed pulses: Awaiting planner preview\u2026"

/-- The texts as a record, under the names the viewer looks for. -/
def toRecord (messages : Messages) : Value :=
  .ofFields
    [("machineProfileEnvelopeFallbackMessage", .string messages.machineEnvelope),
     ("machineProfileEnvelopeMissingAxesPrefix", .string messages.machineAxes),
     ("boundsComparisonFallbackMessage", .string messages.boundsComparison),
     ("patternBoundsFallbackMessage", .string messages.planBounds),
     ("yarnFlowStatusFallbackMessage", .string messages.yarnFlow),
     ("yarnFlowQueueFallbackMessage", .string messages.yarnQueue),
     ("yarnFlowUpcomingFallbackMessage", .string messages.yarnUpcoming)]

end Messages

end YarnPreview
