import Mathlib
import YarnPreview.Host.Calls
import YarnPreview.Proofs.Envelope.Exact
import YarnPreview.Proofs.Host.Boundary
import YarnPreview.Proofs.Machine.Winner
import YarnPreview.Proofs.Plan.Units
import YarnPreview.Proofs.Snapshot.WellFormed
import YarnPreview.Proofs.Value.Lookup

/-!
# One call for three

The viewer can ask for everything at once or for the parts: the comparison, the travel
box and the pulses.  The parts take the long way: the machine's bounds go out to the
host as a value and come back in as an argument.  This module shows that both ways give
the same values.

## Main definitions

* `HostValue.property?` — a property of an object of the host
* `Host.baselineOf` — the extrusion from which bounds let the pulses be detected

## Main statements

* `Machine.portable_boundsRecord` — the record of a profile survives the long way
* `EnvelopeBox.ofBounds_boundsSet?` — what is no object draws the box of no set
* `Plan.boundsSet_payload` — the bounds of a payload whose names have no units
* `Host.previewSnapshot_agrees` — the parts of a snapshot are the results of the single
  calls

## The two tests of presence

The snapshot passes the machine's bounds on only when a travel axis is among them; the
single call passes them on whenever they come from an object.  Both tests decide between
a set and none at all, and they differ on sets that say nothing about the box.
-/

namespace YarnPreview

/-! ### Properties of host objects -/

/-- **A property of an object of the host**; nothing else has any. -/
def HostValue.property? : HostValue → String → Option HostValue
  | object fields, name => Fields.get? fields name
  | _, _ => none

/-- The properties of a record in the host are the fields of the record. -/
theorem HostValue.property?_ofRecord (record : Value) (name : String) :
    (ofRecord record).property? name = (record.field? name).map ofRecord := by
  cases record with
  | object fields => exact get?_ofRecordFields fields name
  | _ => rfl

/-- Every name in the record of an object is one of its own. -/
theorem HostValue.mem_names_of_mem_toRecordFields {fields : List (String × HostValue)}
    {name : String} (h : name ∈ (toRecordFields fields).names) : name ∈ Fields.names fields := by
  obtain ⟨value, hvalue⟩ := (Fields.mem_names_iff _ _).mp h
  rw [get?_toRecordFields] at hvalue
  obtain ⟨inner, hinner, -⟩ := Option.map_eq_some_iff.mp hvalue
  have hmem := List.mem_of_mem_filter (Fields.mem_of_get?_eq_some hinner)
  exact List.mem_map.mpr ⟨_, hmem, rfl⟩

/-! ### The machine's bounds -/

/-- What a portable record holds in a field is portable. -/
theorem Value.Portable.field? {value : Value} (h : value.Portable) {name : String}
    {inner : Value} (hinner : value.field? name = some inner) : inner.Portable := by
  cases h with
  | object _ hfields => exact hfields (name, inner) (Fields.mem_of_get?_eq_some hinner)
  | _ => cases hinner

namespace Machine

/-- An adapted entry is portable when the entry is. -/
theorem portable_adaptEntry {entry : Value} (h : entry.Portable) :
    (adaptEntry entry).Portable := by
  generalize hvalue : adaptEntry entry = value
  rw [adaptEntry_eq_iff] at hvalue
  cases hvalue with
  | @travel lower upper htravel =>
      have hlower : lower.Portable := h.field? htravel.1.1
      have hupper : upper.Portable := h.field? htravel.2.1
      refine .object (by decide : ["max", "min"].Pairwise (· < ·)) ?_
      simp only [List.forall_mem_cons]
      exact ⟨hupper, hlower, by simp⟩
  | unchanged _ => exact h

/-- The loop over the axes keeps to adapted entries, so what it collects is portable. -/
theorem portable_of_mem_adaptAxes {axes : Fields Value}
    (h : ∀ field ∈ axes, field.2.Portable) : ∀ field ∈ adaptAxes axes, field.2.Portable := by
  intro field hfield
  obtain ⟨source, hsource, hadapts⟩ := exists_mem_of_mem_adaptAxes hfield
  rw [← (adaptEntry_eq_iff _ _).mpr hadapts]
  exact portable_adaptEntry (h source hsource)

/-- **The record of a portable profile is portable**, so it comes back from the host as
it was. -/
theorem portable_boundsRecord {profile : Value} (h : profile.Portable) :
    (boundsRecord profile).Portable := by
  unfold boundsRecord
  cases haxes : axes? profile with
  | none => exact .null
  | some axes =>
      have hfields : ∀ field ∈ axes, field.2.Portable := by
        have hobject : (Value.object axes).Portable := by
          cases (axes?_eq_some_iff profile axes).mp haxes with
          | nested hnested => exact h.field? hnested
          | bare _ => exact h
        cases hobject with
        | object _ hfields => exact hfields
      exact .object (ascending_adaptAxes axes) (portable_of_mem_adaptAxes hfields)

end Machine

namespace Host

/-- The machine's bounds come back from the host as the record of the profile. -/
theorem toRecord_machineBounds (profile : HostValue) :
    (machineBounds profile).toRecord = Machine.boundsRecord profile.toRecord :=
  HostValue.toRecord_ofRecord (Machine.portable_boundsRecord profile.portable_toRecord)

end Host

/-! ### The box -/

namespace EnvelopeBox

/-- **What is no object draws the box of the set it describes**, which knows nothing; so
the test for an object decides nothing either. -/
theorem ofBounds_boundsSet? (record : Value) (fallback : TravelSpan) :
    ofBounds (Host.boundsSet? record) fallback = ofBounds (some (.ofRecord record)) fallback := by
  cases record with
  | object fields => rfl
  | _ => exact ofBounds_none fallback

end EnvelopeBox

/-! ### The plan -/

/-- The payload of bounds and events, as the host puts it together. -/
def Host.payload (bounds : HostValue) (events : List HostValue) : HostValue :=
  .object [("bounds", bounds), ("events", .array events)]

/-- The fields of a payload, the undefined ones left out. -/
theorem Host.field?_payload (bounds : HostValue) (events : List HostValue) (name : String) :
    (payload bounds events).toRecord.field? name =
      (Fields.get? (List.filter (fun field => !field.2.isUndefined)
        [("bounds", bounds), ("events", .array events)]) name).map HostValue.toRecord :=
  HostValue.get?_toRecordFields _ name

namespace Plan

/-- The events of a payload are those of its list. -/
theorem events_payload (bounds : HostValue) (events : List HostValue) :
    (ofRecord (Host.payload bounds events).toRecord).events =
      Event.listOfRecord (HostValue.array events).toRecord := by
  have hfield : (Host.payload bounds events).toRecord.field? "events" =
      some (HostValue.array events).toRecord := by
    rw [Host.field?_payload]
    cases bounds <;> rfl
  show eventsOfRecord _ = _
  unfold eventsOfRecord
  rw [hfield]
  rfl

/-- The bounds of a payload are those it was given.  Undefined bounds are left out of the
record, which then reads as null, as they do on their own. -/
theorem bounds_payload (bounds : HostValue) (events : List HostValue) :
    (ofRecord (Host.payload bounds events).toRecord).bounds =
      resolveBounds bounds.toRecord := by
  have hfield : ((Host.payload bounds events).toRecord.field? "bounds").getD .null =
      bounds.toRecord := by
    rw [Host.field?_payload]
    cases bounds <;> rfl
  show resolveBounds _ = _
  rw [hfield]

/-- **The bounds set of a payload** is that of its bounds, when these have no name of an
axis with a unit. -/
theorem boundsSet_payload {bounds : HostValue}
    (h : ∀ fields, bounds = .object fields →
      ∀ name ∈ ["x_mm", "y_mm", "z_mm", "e_mm", "extrusion_mm"], name ∉ Fields.names fields)
    (events : List HostValue) :
    (ofRecord (Host.payload bounds events).toRecord).boundsSet =
      BoundsSet.ofRecord bounds.toRecord := by
  rw [boundsSet, bounds_payload]
  cases bounds with
  | object fields =>
      have hunits : ∀ axis : Axis, ∀ key ∈ axis.recordKeys,
          key ++ "_mm" ∈ ["x_mm", "y_mm", "z_mm", "e_mm", "extrusion_mm"] := by
        intro axis
        cases axis <;> decide
      have hnone : ∀ axis : Axis, ∀ key ∈ axis.recordKeys,
          (HostValue.toRecordFields fields).get? (key ++ "_mm") = none := by
        intro axis key hkey
        rw [Fields.get?_eq_none_iff]
        intro hmem
        exact h fields rfl _ (hunits axis key hkey) (HostValue.mem_names_of_mem_toRecordFields hmem)
      have hnodup := (HostValue.ascending_toRecordFields fields).nodup
      exact ofRecord_resolveUnits hnodup hnone
  | number x =>
      -- A number enters a record as a number or as a text, never as an object.
      rw [HostValue.toRecord, Value.ofFloatOrName]
      split <;> rfl
  | _ => rfl

end Plan

/-! ### The calls -/

/-- The fields of a snapshot in a record. -/
theorem Snapshot.field?_toRecord (snapshot : Snapshot) (name : String) :
    snapshot.toRecord.field? name =
      Fields.get?
        [("comparison", snapshot.comparison.toRecord),
         ("feeds", snapshot.feeds.toRecord),
         ("eventCount", .ofNat snapshot.eventCount),
         ("envelope", snapshot.envelope.toRecord),
         ("status", .string snapshot.status),
         ("feedStatus", .string snapshot.feedStatus)] name := by
  have hnodup :
      ["comparison", "feeds", "eventCount", "envelope", "status", "feedStatus"].Nodup := by
    decide
  refine Value.field?_ofFields ?_ name
  exact hnodup

namespace Host

/-- **The extrusion from which bounds let the pulses be detected**: the lower limit of
their extrusion axis, or null when they describe none. -/
def baselineOf (bounds : HostValue) : HostValue :=
  ((BoundsSet.ofRecord bounds.toRecord).get? .e).elim .null fun b => .number b.min

/-- As a finite number that is the baseline of every plan with these bounds. -/
theorem finiteNumber?_baselineOf {bounds : HostValue} {plan : Plan}
    (h : plan.boundsSet = BoundsSet.ofRecord bounds.toRecord) :
    (baselineOf bounds).finiteNumber? = plan.baseline? := by
  have hfinite : ∀ x, plan.baseline? = some x → x.isFinite = true :=
    fun x hx => Plan.isFinite_of_baseline? hx
  rw [Plan.baseline?, h] at hfinite ⊢
  unfold baselineOf
  cases hbounds : (BoundsSet.ofRecord bounds.toRecord).get? .e with
  | none => rfl
  | some b =>
      rw [hbounds] at hfinite
      exact if_pos (hfinite b.min rfl)

/-- The properties of a snapshot in the host are the fields of its record. -/
theorem property?_previewSnapshot (plan profile fallback : HostValue) (name : String) :
    (previewSnapshot plan profile fallback).property? name =
      ((Snapshot.compute (.ofRecord plan.toRecord) profile.toRecord
        (.ofRecord fallback.toRecord)).toRecord.field? name).map HostValue.ofRecord :=
  HostValue.property?_ofRecord _ name

/-- **The parts of a snapshot are the results of the single calls.**  The comparison is
that of the bounds with the machine's bounds from the host, the box is that of the
machine's bounds, whatever they are, and the pulses are those of the events from the
baseline of the bounds. -/
theorem previewSnapshot_agrees {bounds : HostValue}
    (hunits : ∀ fields, bounds = .object fields →
      ∀ name ∈ ["x_mm", "y_mm", "z_mm", "e_mm", "extrusion_mm"], name ∉ Fields.names fields)
    (events : List HostValue) (profile fallback : HostValue) :
    (previewSnapshot (payload bounds events) profile fallback).property? "comparison" =
        some (compareBounds bounds (machineBounds profile)) ∧
      (previewSnapshot (payload bounds events) profile fallback).property? "envelope" =
        some (envelopeBox (machineBounds profile) fallback) ∧
      (previewSnapshot (payload bounds events) profile fallback).property? "feeds" =
        some (feedIndices (.array events) (baselineOf bounds)) := by
  have hset := Plan.boundsSet_payload hunits events
  refine ⟨?_, ?_, ?_⟩
  · rw [property?_previewSnapshot, Snapshot.field?_toRecord, compareBounds,
      toRecord_machineBounds, Comparison.ofRecords, ← hset]
    rfl
  · rw [property?_previewSnapshot, Snapshot.field?_toRecord, envelopeBox,
      toRecord_machineBounds, EnvelopeBox.ofBounds_boundsSet?, ← EnvelopeBox.ofBounds_hasTravel]
    rfl
  · rw [property?_previewSnapshot, Snapshot.field?_toRecord, feedIndices,
      finiteNumber?_baselineOf hset, ← Plan.events_payload bounds events]
    rfl

/-- Bounds from the host: an undefined entry, an extrusion entry without a number, and a
second one with a text for its lower limit. -/
def looseBounds : HostValue :=
  .object [("y", .undefined),
    ("e", .object [("min", .number notANumber), ("max", .number 2.0)]),
    ("extrusion", .object [("low", .string "1"), ("high", .number 2.0)])]

/-- A profile with an extrusion axis and no travel axis. -/
def extruderOnly : HostValue :=
  .object [("E", .object [("travel_min_mm", .number 0.0), ("travel_max_mm", .number 9.0)])]

/-- Events from the host: one that is undefined, one that has grown over the lower limit of
the second extrusion entry, one that has grown too little over the one before, and one that
says what it does. -/
def looseEvents : List HostValue :=
  [.undefined, .object [("extrusion", .number 1.5)], .object [("extrusion", .string "1.505")],
    .object [("comment", .string "Feed"), ("extrusion", .undefined)]]

/-- The calls agree on loose bounds and a machine without travel; the pulses are detected
from the lower limit of the second extrusion entry, over which the second event has grown. -/
theorem previewSnapshot_agrees_extruderOnly :
    (∀ fields, looseBounds = .object fields →
      ∀ name ∈ ["x_mm", "y_mm", "z_mm", "e_mm", "extrusion_mm"], name ∉ Fields.names fields) ∧
      (previewSnapshot (payload looseBounds looseEvents) extruderOnly .null).property?
          "comparison" = some (compareBounds looseBounds (machineBounds extruderOnly)) ∧
      (previewSnapshot (payload looseBounds looseEvents) extruderOnly .null).property?
          "envelope" = some (envelopeBox (machineBounds extruderOnly) .null) ∧
      (previewSnapshot (payload looseBounds looseEvents) extruderOnly .null).property?
          "feeds" = some (feedIndices (.array looseEvents) (.number 1.0)) ∧
      feedIndices (.array looseEvents) (.number 1.0) = .array [.number 1.0, .number 3.0] ∧
      feedIndices (.array looseEvents) .undefined = .array [.number 3.0] := by
  have hunits : ∀ fields, looseBounds = .object fields →
      ∀ name ∈ ["x_mm", "y_mm", "z_mm", "e_mm", "extrusion_mm"], name ∉ Fields.names fields := by
    intro fields hfields
    cases hfields
    exact (by decide : ∀ name ∈ ["x_mm", "y_mm", "z_mm", "e_mm", "extrusion_mm"],
      name ∉ ["y", "e", "extrusion"])
  have hbaseline : baselineOf looseBounds = .number 1.0 := by
    have hset : (BoundsSet.ofRecord looseBounds.toRecord).get? .e = some ⟨1.0, 2.0⟩ := by
      decide +kernel
    rw [baselineOf, hset]
    rfl
  obtain ⟨hcomparison, henvelope, hfeeds⟩ :=
    previewSnapshot_agrees hunits looseEvents extruderOnly .null
  rw [hbaseline] at hfeeds
  exact ⟨hunits, hcomparison, henvelope, hfeeds, rfl, rfl⟩

end Host

end YarnPreview
