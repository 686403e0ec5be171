import YarnPreview.Demo
import YarnPreview.FileSize
import YarnPreview.Host.Value
import YarnPreview.Snapshot

/-!
# Calls from the host

The functions that the viewer calls.  Each takes host values, reads them as
records and hands its result back as a host value; none can fail.

An argument that the host leaves out is `HostValue.undefined`.
-/

namespace YarnPreview.Host

/-- The bounds of one entry, or null. -/
def normalizeBounds (entry : HostValue) : HostValue :=
  .ofRecord (.ofOption Bounds.toRecord (Bounds.normalize? entry.toRecord))

/-- A plan's bounds compared with a machine's. -/
def compareBounds (planner machine : HostValue) : HostValue :=
  .ofRecord (Comparison.ofRecords planner.toRecord machine.toRecord).toRecord

/-- **The bounds set of a record when it is an object**; otherwise there is
none. -/
def boundsSet? (record : Value) : Option BoundsSet :=
  record.fields?.map fun _ => .ofRecord record

/-- The travel box of a bounds record. -/
def envelopeBox (bounds fallback : HostValue) : HostValue :=
  .ofRecord
    (EnvelopeBox.ofBounds (boundsSet? bounds.toRecord) (.ofRecord fallback.toRecord)).toRecord

/-- The feed pulses of a list of events.  The baseline counts only when it is a
finite number of the host. -/
def feedIndices (events baseline : HostValue) : HostValue :=
  .ofRecord
    (Pulses.detect (Event.listOfRecord events.toRecord) baseline.finiteNumber?).toRecord

/-- A machine profile as a bounds record. -/
def machineBounds (profile : HostValue) : HostValue :=
  .ofRecord (Machine.boundsRecord profile.toRecord)

/-- Everything the viewer shows at once. -/
def previewSnapshot (plan profile fallback : HostValue) : HostValue :=
  .ofRecord
    (Snapshot.compute (.ofRecord plan.toRecord) profile.toRecord
      (.ofRecord fallback.toRecord)).toRecord

/-- A number of bytes in words; nothing when it is left out or has no shown
size. -/
def fileSize? (bytes : HostValue) : Option String :=
  if bytes.isUndefined then none else FileSize.describe? bytes.toRecord.coerce

/-- The steps of the demonstration pattern. -/
def demoEvents : HostValue :=
  .ofRecord (.array (Demo.events.map Event.toRecord))

/-- The settings of the demonstration pattern. -/
def demoDefaults : HostValue :=
  .ofRecord Demo.defaults.toRecord

/-- The fallback messages. -/
def messages : HostValue :=
  .ofRecord Messages.standard.toRecord

/-- The standard fallback span. -/
def travelSpan : HostValue :=
  .ofRecord TravelSpan.standard.toRecord

end YarnPreview.Host
