import YarnPreview.Comparison
import YarnPreview.Envelope
import YarnPreview.Feed.Queue
import YarnPreview.Machine
import YarnPreview.Plan

/-!
# Preview snapshots

Everything that the viewer shows for a plan, a machine profile and a fallback
span, computed in one go.

## Main definitions

* `Snapshot`, `Snapshot.compute` — the results of one refresh
* `Publication`, `Snapshot.publications` — what is handed to the overlay and to
  the scene, in order
-/

namespace YarnPreview

/-- **The results of one refresh.** -/
structure Snapshot where
  comparison : Comparison
  feeds : Pulses
  eventCount : Nat
  envelope : EnvelopeBox
  /-- The comparison in a sentence. -/
  status : String
  /-- The yarn flow in a sentence. -/
  feedStatus : String
  deriving DecidableEq

namespace Snapshot

/-- The pulses of a plan, from the extrusion it starts from. -/
def pulses (plan : Plan) : Pulses :=
  .detect plan.events plan.baseline?

/-- **Computing a snapshot.**  The envelope is drawn from the machine's bounds
when they have a travel axis. -/
def compute (plan : Plan) (profile : Value) (fallback : TravelSpan) : Snapshot :=
  let machine := Machine.bounds profile
  let comparison := Comparison.ofSets plan.boundsSet machine
  let feeds := pulses plan
  { comparison
    feeds
    eventCount := plan.events.length
    envelope := .ofBounds (if machine.hasTravel then some machine else none) fallback
    status := comparison.status
    feedStatus := feeds.flowStatus plan.events.length }

/-- A snapshot in a record. -/
def toRecord (snapshot : Snapshot) : Value :=
  .ofFields
    [("comparison", snapshot.comparison.toRecord),
     ("feeds", snapshot.feeds.toRecord),
     ("eventCount", .ofNat snapshot.eventCount),
     ("envelope", snapshot.envelope.toRecord),
     ("status", .string snapshot.status),
     ("feedStatus", .string snapshot.feedStatus)]

end Snapshot

/-- One thing handed to a part of the viewer. -/
inductive Publication where
  /-- To the overlay: how plan and machine compare. -/
  | comparison (result : Comparison)
  /-- To the overlay: the pulses, and among how many steps. -/
  | feedPulses (feeds : Pulses) (eventCount : Nat)
  /-- To the scene: the box to draw. -/
  | travelEnvelope (box : EnvelopeBox)
  deriving DecidableEq

/-- **What a snapshot publishes**, in order: the overlay first, the scene
last. -/
def Snapshot.publications (snapshot : Snapshot) : List Publication :=
  [.comparison snapshot.comparison,
   .feedPulses snapshot.feeds snapshot.eventCount,
   .travelEnvelope snapshot.envelope]

end YarnPreview
