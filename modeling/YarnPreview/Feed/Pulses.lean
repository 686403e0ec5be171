import YarnPreview.Feed.Event
import YarnPreview.Text.Letters

/-!
# Feed pulses

A step feeds yarn when its comment says so or when the extrusion has grown since
the last step that reported one.  The pulses of a plan are the indices of those
steps.

## Main definitions

* `feedTolerance` — the growth that is still no pulse
* `Event.measured?` — the extrusion that a step reports, if it is finite
* `Pulses`, `Pulses.mark` — the steps marked as pulses
* `Scan`, `Scan.step` — detection under way, and what one step does to it
* `Pulses.detect` — the pulses of a plan

## The two reasons

A step is marked once for what its comment says and once for the growth of the
extrusion.  The second mark of a step that already has one is dropped: a mark is
taken only beyond the last one, which also keeps the marks ascending.

## The running extrusion

A step that reports no finite extrusion hands the last known one on unchanged;
every other step replaces it, whether it was a pulse or not.
-/

namespace YarnPreview

/-- Growth of the extrusion, in millimetres, above which a step is a pulse. -/
def feedTolerance : Float := 0.01

/-- The word by which a comment marks a step as a pulse. -/
def feedWord : List Char := ['f', 'e', 'e', 'd']

namespace Event

/-- Does the comment speak of feeding? -/
def mentionsFeed (event : Event) : Bool :=
  event.comment.any fun comment => Text.mentions feedWord comment.toList

/-- The extrusion that the step reports, if it is finite. -/
def measured? (event : Event) : Option Float :=
  event.extrusion.filter Float.isFinite

/-- Has the extrusion grown from `previous` by a finite amount above the
tolerance? -/
def grows (previous current : Float) : Bool :=
  (current - previous).isFinite && decide (feedTolerance < current - previous)

end Event

/-- **Feed pulses**: the indices of the steps that feed yarn. -/
structure Pulses where
  steps : List Nat
  deriving DecidableEq, Repr

namespace Pulses

/-- No pulses. -/
def empty : Pulses := ⟨[]⟩

/-- Mark a step, unless the last mark is already there or beyond. -/
def mark (pulses : Pulses) (index : Nat) : Pulses :=
  if pulses.steps.getLast?.all (· < index) then ⟨pulses.steps ++ [index]⟩ else pulses

end Pulses

/-- **Detection under way**: the pulses marked so far and the last known
extrusion. -/
structure Scan where
  pulses : Pulses
  previous : Option Float

namespace Scan

/-- **One step of detection.**  The comment is heard first; the growth is judged
only when the step reports a finite extrusion and one is known from before. -/
def step (scan : Scan) (index : Nat) (event : Event) : Scan :=
  let heard := if event.mentionsFeed then scan.pulses.mark index else scan.pulses
  match event.measured? with
  | none => { scan with pulses := heard }
  | some current =>
      let grown := scan.previous.any (Event.grows · current)
      { pulses := if grown then heard.mark index else heard
        previous := some current }

/-- The steps from the given index on, one after the other. -/
def run (scan : Scan) (index : Nat) (events : List Event) : Scan :=
  (events.zipIdx index).foldl (fun scan entry => scan.step entry.2 entry.1) scan

end Scan

namespace Pulses

/-- **The pulses of a plan.**  A finite baseline is the extrusion known before
the first step. -/
def detect (events : List Event) (baseline : Option Float) : Pulses :=
  (Scan.run ⟨empty, baseline.filter Float.isFinite⟩ 0 events).pulses

/-- How many pulses there are. -/
def size (pulses : Pulses) : Nat := pulses.steps.length

/-- Are there none? -/
def isEmpty (pulses : Pulses) : Bool := pulses.steps.isEmpty

/-- Pulses in a record: their indices. -/
def toRecord (pulses : Pulses) : Value :=
  .array (pulses.steps.map Value.ofNat)

/-- Pulses decoded strictly: an array of step indices, in whatever order. -/
def decode? (value : Value) : Option Pulses := do
  let items ← value.items?
  let steps ← items.mapM Value.index?
  return { steps }

end Pulses

end YarnPreview
