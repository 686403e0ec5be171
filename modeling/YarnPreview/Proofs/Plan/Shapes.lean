import Mathlib
import YarnPreview.Snapshot
import YarnPreview.Proofs.Bounds.Resolution
import YarnPreview.Proofs.Plan.Units
import YarnPreview.Proofs.Value.Lookup

/-!
# Two shapes of one plan

A plan can be written flat, with bounds and events side by side, or exported, with
units in its names and each event spread over a command and the state that it leaves.
The two shapes are read on separate ways: one reads what it finds, the other strips
suffixes and gathers fields first.  This module writes one plan in both shapes and
shows that the ways meet.

## Main definitions

* `Plan.flatPayload` — bounds and events as they are
* `Plan.exportBounds`, `Plan.exportState`, `Plan.exportCommand` — the parts of the other
  shape
* `Plan.exportPayload` — the same plan, exported

## Main statements

* `Plan.get?_commandFields_comment`, `Plan.get?_commandFields_state` — what a command says
  under each name of an event
* `Plan.ofFields_commandFields_exportCommand` — the event of an exported event
* `Plan.get?_resolveUnits_exportBounds` — the bounds of exported bounds
* `Plan.shapes_agree` — both shapes give the same events, bounds, baseline and snapshots

## Design notes

**Absence is carried over, never filled in.**  An export leaves out what the event does
not have, and a command is read the same way.  So a missing number stays missing and a
null one stays null, which numeric coercion tells apart.

**Names are compared, values are not.**  No lemma here looks into a value: whatever
stands under a name, a text for a number or a number for a comment, both ways hand the
same value to the same reader.
-/

namespace YarnPreview

/-! ### Readers that read by name -/

/-- **An event reads five names** of its entry and no other. -/
theorem Event.ofFields_congr {fields others : Fields Value}
    (h : ∀ name ∈ ["comment", "extrusion", "x", "y", "z"],
      fields.get? name = others.get? name) : ofFields fields = ofFields others := by
  simp only [List.forall_mem_cons, List.not_mem_nil] at h
  obtain ⟨hcomment, hextrusion, hx, hy, hz, -⟩ := h
  simp only [ofFields, Value.finiteField?, hcomment, hextrusion, hx, hy, hz]

/-- **A snapshot reads the events and the bounds set** of its plan; where the bounds were
written does not matter. -/
theorem Snapshot.compute_congr {plan other : Plan} (hevents : plan.events = other.events)
    (hbounds : plan.boundsSet = other.boundsSet) (profile : Value) (fallback : TravelSpan) :
    compute plan profile fallback = compute other profile fallback := by
  have hbaseline : plan.baseline? = other.baseline? := by
    rw [Plan.baseline?, Plan.baseline?, hbounds]
  simp only [compute, pulses, hevents, hbounds, hbaseline]

namespace Plan

/-! ### The two shapes -/

/-- **The flat shape** of a plan. -/
def flatPayload (bounds : Fields Value) (events : List (Fields Value)) : Value :=
  .ofFields [("bounds", .object bounds), ("events", .array (events.map .object))]

/-- Bounds as they are exported: every name with its unit. -/
def exportBounds (bounds : Fields Value) : Fields Value :=
  .ofList (bounds.map fun field => (field.1 ++ "_mm", field.2))

/-- The state of an exported event: position and extrusion, each only if the event has
it. -/
def exportState (event : Fields Value) : Fields Value :=
  .ofList (Fields.pick event.get?
    [("x_mm", "x"), ("y_mm", "y"), ("z_mm", "z"), ("extrusion_mm", "extrusion")])

/-- An event as it is exported: its comment, if it has one, and its state. -/
def exportCommand (event : Fields Value) : Fields Value :=
  .ofList (Fields.pick event.get? [("comment", "comment")] ++
    [("state", .object (exportState event))])

/-- **The exported shape** of a plan. -/
def exportPayload (bounds : Fields Value) (events : List (Fields Value)) : Value :=
  .ofFields
    [("bounds", .object (exportBounds bounds)),
     ("commands", .array (events.map fun event => .object (exportCommand event)))]

/-! ### Commands -/

/-- **What a command gives under a name** is picked from the command itself or from its
state. -/
theorem get?_commandFields (command : Value) (name : String) :
    (commandFields command).get? name =
      ((Fields.pick command.field? [("comment", "comment")]).get? name).or
        ((Fields.pick ((command.field? "state").getD .null).field? stateNames).get? name) := by
  have hpicked : commandFields command =
      .ofList (Fields.pick command.field? [("comment", "comment")] ++
        Fields.pick ((command.field? "state").getD .null).field? stateNames) := by
    unfold commandFields
    cases hcomment : command.field? "comment" with
    | none => simp [Fields.pick, hcomment]
    | some comment => simp [Fields.pick, hcomment]
  have hnodup := Fields.nodup_names_pick_append command.field?
    (Fields.names_pick_sublist ((command.field? "state").getD .null).field? stateNames)
    (by decide : ([("comment", "comment")].map Prod.fst ++ stateNames.map Prod.fst).Nodup)
  rw [hpicked, Fields.get?_ofList hnodup, Fields.get?_append]

/-- The comment of the event is that of the command. -/
theorem get?_commandFields_comment (command : Value) :
    (commandFields command).get? "comment" = command.field? "comment" := by
  have hcomment : "comment" ∉ stateNames.map Prod.fst := by decide
  rw [get?_commandFields, Fields.get?_pick_eq_none hcomment, Option.or_none]
  exact Fields.get?_pick (by decide) List.mem_cons_self

/-- The numbers of the event are those of the state, by the names that events have for
them. -/
theorem get?_commandFields_state (command : Value) {name source : String}
    (h : (name, source) ∈ stateNames) :
    (commandFields command).get? name =
      ((command.field? "state").getD .null).field? source := by
  have hnames : ∀ row ∈ stateNames, row.1 ∉ [("comment", "comment")].map Prod.fst := by decide
  rw [get?_commandFields, Fields.get?_pick_eq_none (hnames _ h), Option.none_or]
  exact Fields.get?_pick (by decide) h

/-- What an exported event has under a name is its comment or its state. -/
theorem get?_exportCommand (event : Fields Value) (name : String) :
    (exportCommand event).get? name =
      ((Fields.pick event.get? [("comment", "comment")]).get? name).or
        (Fields.get? [("state", .object (exportState event))] name) := by
  have hstate : List.Sublist (Fields.names [("state", Value.object (exportState event))])
      ["state"] := List.Sublist.refl _
  have hnodup := Fields.nodup_names_pick_append event.get? hstate
    (by decide : ([("comment", "comment")].map Prod.fst ++ ["state"]).Nodup)
  rw [exportCommand, Fields.get?_ofList hnodup, Fields.get?_append]

/-- An exported event keeps its comment … -/
theorem get?_exportCommand_comment (event : Fields Value) :
    (exportCommand event).get? "comment" = event.get? "comment" := by
  have hother : Fields.get? [("state", Value.object (exportState event))] "comment" = none := rfl
  rw [get?_exportCommand, hother, Option.or_none]
  exact Fields.get?_pick (by decide) List.mem_cons_self

/-- … and has its state beside it. -/
theorem get?_exportCommand_state (event : Fields Value) :
    (exportCommand event).get? "state" = some (.object (exportState event)) := by
  have hother : "state" ∉ [("comment", "comment")].map Prod.fst := by decide
  rw [get?_exportCommand, Fields.get?_pick_eq_none hother, Option.none_or]
  rfl

/-- An exported state has the numbers of the event, under names with a unit. -/
theorem get?_exportState (event : Fields Value) {name source : String}
    (h : (name, source) ∈ stateNames) : (exportState event).get? source = event.get? name := by
  have hrows : ∀ row ∈ stateNames, (row.2, row.1) ∈
      [("x_mm", "x"), ("y_mm", "y"), ("z_mm", "z"), ("extrusion_mm", "extrusion")] := by decide
  have hnodup : (Fields.names (Fields.pick event.get?
      [("x_mm", "x"), ("y_mm", "y"), ("z_mm", "z"), ("extrusion_mm", "extrusion")])).Nodup :=
    List.Nodup.sublist (Fields.names_pick_sublist _ _) (by decide)
  rw [exportState, Fields.get?_ofList hnodup]
  exact Fields.get?_pick (by decide) (hrows _ h)

/-- **The event of an exported event is the event.**  Both are read by five names: the
comment is on the command, the four numbers are in its state. -/
theorem ofFields_commandFields_exportCommand (event : Fields Value) :
    Event.ofFields (commandFields (.object (exportCommand event))) = Event.ofFields event := by
  have hnumber : ∀ row ∈ stateNames,
      (commandFields (.object (exportCommand event))).get? row.1 = event.get? row.1 := by
    intro row hrow
    rw [get?_commandFields_state _ hrow, Value.field?_object, get?_exportCommand_state,
      Option.getD_some, Value.field?_object, get?_exportState event hrow]
  refine Event.ofFields_congr ?_
  simp only [stateNames, List.forall_mem_cons] at hnumber ⊢
  obtain ⟨hx, hy, hz, hextrusion, -⟩ := hnumber
  refine ⟨?_, hextrusion, hx, hy, hz, by simp⟩
  rw [get?_commandFields_comment, Value.field?_object, get?_exportCommand_comment]

/-- **Exported events are read as the events**, one for each command. -/
theorem eventsOfCommands_export (events : List (Fields Value)) :
    eventsOfCommands (events.map fun event => .object (exportCommand event)) =
      events.map Event.ofFields := by
  have hobjects : ∀ command ∈ events.map fun event => Value.object (exportCommand event),
      command.fields?.isSome = true := by
    intro command hcommand
    obtain ⟨event, -, rfl⟩ := List.mem_map.mp hcommand
    rfl
  rw [eventsOfCommands, List.filter_eq_self.mpr hobjects, List.map_map]
  refine List.map_congr_left ?_
  intro event _
  exact ofFields_commandFields_exportCommand event

/-! ### Bounds -/

/-- Exported bounds are looked up among the renamed fields. -/
theorem get?_exportBounds {bounds : Fields Value} (h : bounds.Ascending) (name : String) :
    (exportBounds bounds).get? name =
      Fields.get? (bounds.map fun field => (field.1 ++ "_mm", field.2)) name := by
  have hnodup : (Fields.names (bounds.map fun field => (field.1 ++ "_mm", field.2))).Nodup := by
    rw [Fields.names_rename (· ++ "_mm")]
    exact h.nodup.map unit_injective
  rw [exportBounds, Fields.get?_ofList hnodup]

/-- **Exported bounds are read as the bounds**: no name of an axis is there without its
unit, and with its unit it has the entry of the name. -/
theorem get?_resolveUnits_exportBounds {bounds : Fields Value} (h : bounds.Ascending)
    {axis : Axis} {key : String} (hkey : key ∈ axis.recordKeys) :
    (resolveUnits (exportBounds bounds)).get? key = bounds.get? key := by
  have hplain : (exportBounds bounds).get? key = none := by
    rw [get?_exportBounds h, Fields.get?_eq_none_iff, Fields.names_rename (· ++ "_mm")]
    intro hmem
    obtain ⟨name, -, hname⟩ := List.mem_map.mp hmem
    exact ne_unit_of_mem_recordKeys hkey name hname.symm
  have hunit : (exportBounds bounds).get? (key ++ "_mm") = bounds.get? key := by
    rw [get?_exportBounds h]
    exact Fields.get?_rename unit_injective bounds key
  have hnodup : (exportBounds bounds).names.Nodup := (Fields.ascending_ofList _).nodup
  rw [get?_resolveUnits hnodup, hplain, hunit, Option.none_or]

/-! ### Plans -/

/-- The plan of a flat payload. -/
theorem ofRecord_flatPayload (bounds : Fields Value) (events : List (Fields Value)) :
    ofRecord (flatPayload bounds events) =
      { bounds := .object (resolveUnits bounds)
        events := events.map Event.ofFields
        defaults := .null } := by
  have hfield : ∀ name, (flatPayload bounds events).field? name =
      Fields.get? [("bounds", .object bounds), ("events", .array (events.map .object))] name :=
    Value.field?_ofFields (by decide : ["bounds", "events"].Nodup)
  have hevents : eventsOfRecord (flatPayload bounds events) = events.map Event.ofFields := by
    unfold eventsOfRecord
    rw [hfield]
    show (events.map Value.object).map Event.ofRecord = _
    rw [List.map_map]
    rfl
  unfold ofRecord
  rw [hevents, hfield, hfield]
  rfl

/-- The plan of an exported payload. -/
theorem ofRecord_exportPayload (bounds : Fields Value) (events : List (Fields Value)) :
    ofRecord (exportPayload bounds events) =
      { bounds := .object (resolveUnits (exportBounds bounds))
        events := events.map Event.ofFields
        defaults := .null } := by
  have hfield : ∀ name, (exportPayload bounds events).field? name =
      Fields.get? [("bounds", .object (exportBounds bounds)),
        ("commands", .array (events.map fun event => .object (exportCommand event)))] name :=
    Value.field?_ofFields (by decide : ["bounds", "commands"].Nodup)
  have hevents : eventsOfRecord (exportPayload bounds events) = events.map Event.ofFields := by
    unfold eventsOfRecord
    rw [hfield, hfield]
    exact eventsOfCommands_export events
  unfold ofRecord
  rw [hevents, hfield, hfield]
  rfl

/-- **Both shapes of a plan are read as the same plan**: the events, the bounds set, the
baseline and every snapshot agree, whatever stands in the entries of the bounds and in the
fields of the events. -/
theorem shapes_agree {bounds : Fields Value} (hbounds : bounds.Ascending)
    (hnames : ∀ name ∈ bounds.names, name ∈ ["x", "y", "z", "e", "extrusion"])
    (events : List (Fields Value)) :
    (ofRecord (exportPayload bounds events)).events =
        (ofRecord (flatPayload bounds events)).events ∧
      (ofRecord (exportPayload bounds events)).boundsSet =
        (ofRecord (flatPayload bounds events)).boundsSet ∧
      (ofRecord (exportPayload bounds events)).baseline? =
        (ofRecord (flatPayload bounds events)).baseline? ∧
      ∀ (profile : Value) (fallback : TravelSpan),
        Snapshot.compute (ofRecord (exportPayload bounds events)) profile fallback =
          Snapshot.compute (ofRecord (flatPayload bounds events)) profile fallback := by
  have hevents : (ofRecord (exportPayload bounds events)).events =
      (ofRecord (flatPayload bounds events)).events := by
    rw [ofRecord_exportPayload, ofRecord_flatPayload]
  have hset : (ofRecord (exportPayload bounds events)).boundsSet =
      (ofRecord (flatPayload bounds events)).boundsSet := by
    have hplain : ∀ axis : Axis, ∀ key ∈ axis.recordKeys, bounds.get? (key ++ "_mm") = none := by
      intro axis key _
      have hunits : ∀ name ∈ ["x", "y", "z", "e", "extrusion"], withoutUnit? name = none := by
        decide
      rw [Fields.get?_eq_none_iff]
      intro hmem
      exact ne_unit_of_withoutUnit? (hunits _ (hnames _ hmem)) key rfl
    rw [ofRecord_exportPayload, ofRecord_flatPayload]
    show BoundsSet.ofRecord (.object (resolveUnits (exportBounds bounds))) =
      BoundsSet.ofRecord (.object (resolveUnits bounds))
    rw [ofRecord_resolveUnits hbounds.nodup hplain]
    refine BoundsSet.ofRecord_congr ?_
    intro axis key hkey
    exact get?_resolveUnits_exportBounds hbounds hkey
  refine ⟨hevents, hset, ?_, ?_⟩
  · rw [baseline?, baseline?, hset]
  · intro profile fallback
    exact Snapshot.compute_congr hevents hset profile fallback

/-- Bounds whose first entry for the extrusion is null and whose second one gives a limit
as a text. -/
def sampleBounds : Fields Value :=
  [("e", .null),
   ("extrusion", .object [("high", .number (.double 2.5 (by decide))), ("min", .string " 0.5")]),
   ("z", .array [])]

/-- An event with a null comment and a null extrusion, and one with a number for a
comment, a text for its extrusion and nothing else. -/
def sampleEvents : List (Fields Value) :=
  [[("comment", .null), ("extrusion", .null), ("x", .bool true)],
   [("comment", .number (.integer 7)), ("extrusion", .string "1.5")]]

/-- The sample in both shapes: its baseline is read past the null entry, and its second
event is a pulse. -/
theorem shapes_agree_sample :
    sampleBounds.Ascending ∧
      (∀ name ∈ sampleBounds.names, name ∈ ["x", "y", "z", "e", "extrusion"]) ∧
      (ofRecord (exportPayload sampleBounds sampleEvents)).baseline? = some 0.5 ∧
      (Snapshot.compute (ofRecord (exportPayload sampleBounds sampleEvents)) .null
        .standard).feeds = ⟨[1]⟩ := by
  have hascending : sampleBounds.Ascending :=
    (by decide : ["e", "extrusion", "z"].Pairwise (· < ·))
  have hnames : ∀ name ∈ sampleBounds.names, name ∈ ["x", "y", "z", "e", "extrusion"] :=
    (by decide : ∀ name ∈ ["e", "extrusion", "z"], name ∈ ["x", "y", "z", "e", "extrusion"])
  obtain ⟨-, -, hbaseline, hsnapshot⟩ := shapes_agree hascending hnames sampleEvents
  refine ⟨hascending, hnames, ?_, ?_⟩
  · exact hbaseline.trans (by decide +kernel)
  · exact (congrArg Snapshot.feeds (hsnapshot .null .standard)).trans (by decide +kernel)

end Plan

end YarnPreview
