import YarnPreview.Feed.Event

/-!
# The demonstration pattern

A short crochet plan that the viewer shows before any payload is loaded: a row of
three chain stitches, a turn and one single stitch.

## Main definitions

* `Demo.events` — the twenty-two steps
* `PatternDefaults`, `Demo.defaults` — the settings it was made with
-/

namespace YarnPreview

/-- **Settings of a pattern**: heights in millimetres, rates in millimetres per
minute. -/
structure PatternDefaults where
  safeZ : Float
  fabricPlaneZ : Float
  travelFeedRate : Float
  plungeFeedRate : Float
  yarnFeedRate : Float
  defaultRowHeight : Float
  rowSpacing : Float
  /-- Must the machine be homed first? -/
  requireHome : Bool
  homeState : String

/-- Settings in a record. -/
def PatternDefaults.toRecord (defaults : PatternDefaults) : Value :=
  .ofFields
    [("safe_z_mm", .ofFloatOrNull defaults.safeZ),
     ("fabric_plane_z_mm", .ofFloatOrNull defaults.fabricPlaneZ),
     ("travel_feed_rate_mm_min", .ofFloatOrNull defaults.travelFeedRate),
     ("plunge_feed_rate_mm_min", .ofFloatOrNull defaults.plungeFeedRate),
     ("yarn_feed_rate_mm_min", .ofFloatOrNull defaults.yarnFeedRate),
     ("default_row_height_mm", .ofFloatOrNull defaults.defaultRowHeight),
     ("row_spacing_mm", .ofFloatOrNull defaults.rowSpacing),
     ("require_home", .bool defaults.requireHome),
     ("home_state", .string defaults.homeState)]

namespace Demo

/-- A step with everything known: comment, position and extrusion. -/
def step (comment : String) (x y z extrusion : Float) : Event :=
  ⟨some comment, some extrusion, some x, some y, some z⟩

/-- **The steps of the pattern.** -/
def events : List Event :=
  [step "use millimeters" 0.0 0.0 4.0 0.0,
   step "absolute positioning" 0.0 0.0 4.0 0.0,
   step "zero axes" 0.0 0.0 4.0 0.0,
   step "chain stitch 1 of 3: plunge" 0.0 0.0 (-1.5) 0.0,
   step "chain stitch 1 of 3: feed yarn" 0.0 0.0 (-1.5) 0.5,
   step "chain stitch 1 of 3: raise" 0.0 0.0 4.0 0.5,
   step "chain stitch 1 of 3: advance" 5.0 0.0 4.0 0.5,
   step "chain stitch 2 of 3: plunge" 5.0 0.0 (-1.5) 0.5,
   step "chain stitch 2 of 3: feed yarn" 5.0 0.0 (-1.5) 1.0,
   step "chain stitch 2 of 3: raise" 5.0 0.0 4.0 1.0,
   step "chain stitch 2 of 3: advance" 10.0 0.0 4.0 1.0,
   step "chain stitch 3 of 3: plunge" 10.0 0.0 (-1.5) 1.0,
   step "chain stitch 3 of 3: feed yarn" 10.0 0.0 (-1.5) 1.5,
   step "chain stitch 3 of 3: raise" 10.0 0.0 4.0 1.5,
   step "chain stitch 3 of 3: advance" 15.0 0.0 4.0 1.5,
   step "pause for 0.400 s" 15.0 0.0 4.0 1.5,
   step "reposition" 18.0 5.0 4.0 1.5,
   step "turn to next row" 0.0 12.0 4.0 1.5,
   step "single stitch 1 of 1: plunge" 0.0 12.0 (-2.0) 1.5,
   step "single stitch 1 of 1: feed yarn" 0.0 12.0 (-2.0) 2.1,
   step "single stitch 1 of 1: raise" 0.0 12.0 4.0 2.1,
   step "single stitch 1 of 1: advance" 4.5 12.0 4.0 2.1]

/-- The settings of the pattern. -/
def defaults : PatternDefaults where
  safeZ := 4.0
  fabricPlaneZ := 0.0
  travelFeedRate := 1200.0
  plungeFeedRate := 600.0
  yarnFeedRate := 300.0
  defaultRowHeight := 6.0
  rowSpacing := 6.0
  requireHome := false
  homeState := "unknown"

end Demo

end YarnPreview
