import Mathlib
import YarnPreview.Snapshot
import YarnPreview.Proofs.Comparison.Containment
import YarnPreview.Proofs.Envelope.Extent
import YarnPreview.Proofs.Feed.Detection
import YarnPreview.Proofs.Value.Ordered

/-!
# Snapshots are well formed

A snapshot is computed from three records of which nothing is known, and the viewer
draws whatever it holds.  This module shows that what it holds can be drawn: no
double is infinite or NaN, no bounds are inverted, the box has a size, and the
pulses are steps of the plan.

## Main definitions

* `Value.NullFree` — there is no null anywhere in a record
* `Snapshot.doubles` — the doubles that a snapshot holds
* `Plan.CountsEvents` — how many events a payload has
* `Snapshot.WellFormed` — a snapshot that the viewer can show

## Main statements

* `Snapshot.nullFree_toRecord` — a snapshot of finite doubles is written without null
* `Snapshot.wellFormed_compute` — every snapshot that is computed is well formed

## Design notes

Non-finite doubles are kept out at four places: where bounds are normalised, where
the fallback span is judged, where the extent of an axis is built, and where the
baseline of the plan is read off its bounds.  Each has its own lemma, in the module
of the thing that it is about; here they meet.
-/

namespace YarnPreview

/-! ### Records without null -/

namespace Value

/-- **A record without null**, at any level. -/
inductive NullFree : Value → Prop
  | bool (b : Bool) : NullFree (.bool b)
  | number (n : Number) : NullFree (.number n)
  | string (s : String) : NullFree (.string s)
  | array {items : List Value} (h : ∀ item ∈ items, NullFree item) : NullFree (.array items)
  | object {fields : List (String × Value)} (h : ∀ field ∈ fields, NullFree field.2) :
      NullFree (.object fields)

/-- An object has no null when none of its fields has. -/
theorem nullFree_ofFields {pairs : List (String × Value)}
    (h : ∀ pair ∈ pairs, NullFree pair.2) : NullFree (ofFields pairs) :=
  .object fun pair hpair => h pair (Fields.mem_of_mem_ofList hpair)

/-- An array has no null when what is written for its items has none. -/
theorem nullFree_array_map {α : Type} {encode : α → Value} {items : List α}
    (h : ∀ item ∈ items, NullFree (encode item)) : NullFree (.array (items.map encode)) := by
  refine .array ?_
  intro value hvalue
  obtain ⟨item, hitem, rfl⟩ := List.mem_map.mp hvalue
  exact h item hitem

/-- A finite double is not written as null. -/
theorem nullFree_ofFloatOrNull {x : Float} (h : x.isFinite = true) :
    NullFree (ofFloatOrNull x) := by
  rw [ofFloatOrNull_of_isFinite h]
  exact .number _

end Value

/-! ### The doubles of a snapshot -/

/-- The two limits. -/
def Bounds.doubles (b : Bounds) : List Float :=
  [b.min, b.max]

/-- The limits of both sides. -/
def AxisComparison.doubles (c : AxisComparison) : List Float :=
  c.planner.doubles ++ c.machine.doubles

/-- The limits of all axes that are known on both sides. -/
def Comparison.doubles (c : Comparison) : List Float :=
  c.details.entries.flatMap fun entry => entry.2.doubles

/-- The sizes and the centre. -/
def EnvelopeBox.doubles (box : EnvelopeBox) : List Float :=
  [box.width, box.depth, box.height, box.centerX, box.centerY, box.centerZ]

/-- **The doubles that a snapshot holds.** -/
def Snapshot.doubles (snapshot : Snapshot) : List Float :=
  snapshot.comparison.doubles ++ snapshot.envelope.doubles

/-- Bounds with finite limits are written without null. -/
theorem Bounds.nullFree_toRecord {b : Bounds} (h : ∀ x ∈ b.doubles, x.isFinite = true) :
    b.toRecord.NullFree := by
  simp only [doubles, List.forall_mem_cons, List.not_mem_nil] at h
  refine Value.nullFree_ofFields ?_
  simp only [List.forall_mem_cons]
  exact ⟨Value.nullFree_ofFloatOrNull h.1, Value.nullFree_ofFloatOrNull h.2.1, by simp⟩

/-- A compared axis with finite limits is written without null. -/
theorem AxisComparison.nullFree_toRecord {c : AxisComparison}
    (h : ∀ x ∈ c.doubles, x.isFinite = true) : c.toRecord.NullFree := by
  obtain ⟨hplanner, hmachine⟩ := List.forall_mem_append.mp h
  refine Value.nullFree_ofFields ?_
  simp only [List.forall_mem_cons]
  exact ⟨Bounds.nullFree_toRecord hplanner, Bounds.nullFree_toRecord hmachine, .bool _,
    .bool _, by simp⟩

/-- A comparison with finite limits is written without null. -/
theorem Comparison.nullFree_toRecord {c : Comparison}
    (h : ∀ x ∈ c.doubles, x.isFinite = true) : c.toRecord.NullFree := by
  have haxes : ∀ axes : List Axis, (Value.array (axes.map Axis.toRecord)).NullFree :=
    fun axes => Value.nullFree_array_map fun axis _ => .string axis.name
  have hdetails : (c.details.toSparseRecord AxisComparison.toRecord).NullFree := by
    refine Value.nullFree_ofFields ?_
    intro pair hpair
    obtain ⟨entry, hentry, rfl⟩ := List.mem_map.mp hpair
    refine AxisComparison.nullFree_toRecord ?_
    intro x hx
    exact h x (List.mem_flatMap.mpr ⟨entry, hentry, hx⟩)
  refine Value.nullFree_ofFields ?_
  simp only [List.forall_mem_cons]
  exact ⟨.bool _, .bool _, haxes _, haxes _, .bool _, haxes _, hdetails, by simp⟩

/-- A box of finite doubles is written without null. -/
theorem EnvelopeBox.nullFree_toRecord {box : EnvelopeBox}
    (h : ∀ x ∈ box.doubles, x.isFinite = true) : box.toRecord.NullFree := by
  simp only [doubles, List.forall_mem_cons] at h
  obtain ⟨hwidth, hdepth, hheight, hx, hy, hz, -⟩ := h
  refine Value.nullFree_ofFields ?_
  simp only [List.forall_mem_cons]
  exact ⟨Value.nullFree_ofFloatOrNull hwidth, Value.nullFree_ofFloatOrNull hdepth,
    Value.nullFree_ofFloatOrNull hheight, Value.nullFree_ofFloatOrNull hx,
    Value.nullFree_ofFloatOrNull hy, Value.nullFree_ofFloatOrNull hz, by simp⟩

/-- **A snapshot of finite doubles is written without null.** -/
theorem Snapshot.nullFree_toRecord {snapshot : Snapshot}
    (h : ∀ x ∈ snapshot.doubles, x.isFinite = true) : snapshot.toRecord.NullFree := by
  obtain ⟨hcomparison, henvelope⟩ := List.forall_mem_append.mp h
  have hfeeds : snapshot.feeds.toRecord.NullFree :=
    Value.nullFree_array_map fun step _ => .number _
  refine Value.nullFree_ofFields ?_
  simp only [List.forall_mem_cons]
  exact ⟨Comparison.nullFree_toRecord hcomparison, hfeeds, .number _,
    EnvelopeBox.nullFree_toRecord henvelope, .string _, .string _, by simp⟩

/-! ### What is computed -/

namespace Plan

/-- **How many events a payload has**: one for each item of its event array, and
without such an array one for each object among its commands. -/
inductive CountsEvents (payload : Value) : Nat → Prop
  | listed {items : List Value} (h : payload.field? "events" = some (.array items)) :
      CountsEvents payload items.length
  | commanded {commands : List Value}
      (hevents : ∀ items, payload.field? "events" ≠ some (.array items))
      (h : payload.field? "commands" = some (.array commands)) :
      CountsEvents payload (commands.countP (·.fields?.isSome))
  | absent (hevents : ∀ items, payload.field? "events" ≠ some (.array items))
      (hcommands : ∀ commands, payload.field? "commands" ≠ some (.array commands)) :
      CountsEvents payload 0

/-- The items of a field, when it holds an array. -/
theorem items_of_field?_iff (payload : Value) (name : String) (items : List Value) :
    (payload.field? name).bind Value.items? = some items ↔
      payload.field? name = some (.array items) := by
  simp only [Option.bind_eq_some_iff, Value.items?_eq_some_iff, exists_eq_right]

/-- A field without items holds no array. -/
theorem ne_array_of_items_eq_none {payload : Value} {name : String}
    (h : (payload.field? name).bind Value.items? = none) (items : List Value) :
    payload.field? name ≠ some (.array items) := by
  intro hfield
  rw [(items_of_field?_iff payload name items).mpr hfield] at h
  cases h

/-- **A plan has as many events as its payload.** -/
theorem countsEvents_ofRecord (payload : Value) :
    CountsEvents payload (ofRecord payload).events.length := by
  show CountsEvents payload (eventsOfRecord payload).length
  unfold eventsOfRecord
  cases hevents : (payload.field? "events").bind Value.items? with
  | some items =>
      rw [List.length_map]
      exact .listed ((items_of_field?_iff payload "events" items).mp hevents)
  | none =>
      have hlisted := ne_array_of_items_eq_none hevents
      cases hcommands : (payload.field? "commands").bind Value.items? with
      | some commands =>
          rw [Option.getD_some, eventsOfCommands, List.length_map, ← List.countP_eq_length_filter]
          exact .commanded hlisted ((items_of_field?_iff payload "commands" commands).mp hcommands)
      | none => exact .absent hlisted (ne_array_of_items_eq_none hcommands)

/-- **The baseline of a plan is finite**: it is a limit of normalised bounds. -/
theorem isFinite_of_baseline? {plan : Plan} {x : Float} (h : plan.baseline? = some x) :
    x.isFinite = true := by
  obtain ⟨b, hb, rfl⟩ := Option.map_eq_some_iff.mp h
  obtain ⟨entry, hdescribes⟩ := ((BoundsSet.get?_ofRecord_eq_some_iff _ _ _).mp hb).describes
  exact hdescribes.finite_min

end Plan

namespace Snapshot

/-- **A snapshot that the viewer can show** for a payload. -/
structure WellFormed (payload : Value) (snapshot : Snapshot) : Prop where
  /-- No double is infinite or NaN. -/
  finite : ∀ x ∈ snapshot.doubles, x.isFinite = true
  /-- No number is written as null. -/
  nullFree : snapshot.toRecord.NullFree
  /-- The box has a size along each axis. -/
  envelope_pos : 0.0 < snapshot.envelope.width ∧ 0.0 < snapshot.envelope.depth ∧
    0.0 < snapshot.envelope.height
  /-- No bounds are inverted, on either side. -/
  details_ordered : ∀ axis detail, snapshot.comparison.details.get? axis = some detail →
    detail.planner.min ≤ detail.planner.max ∧ detail.machine.min ≤ detail.machine.max
  /-- The pulses ascend. -/
  feeds_ascending : snapshot.feeds.steps.Pairwise (· < ·)
  /-- The pulses are steps of the plan. -/
  feeds_lt : ∀ step ∈ snapshot.feeds.steps, step < snapshot.eventCount
  /-- The steps are the events of the payload. -/
  eventCount : Plan.CountsEvents payload snapshot.eventCount
  /-- The pulses are detected from the baseline of the plan. -/
  feeds_eq : snapshot.feeds =
    .detect (Plan.ofRecord payload).events (Plan.ofRecord payload).baseline?
  /-- That baseline is absent or finite. -/
  baseline_finite : ∀ x, (Plan.ofRecord payload).baseline? = some x → x.isFinite = true

section Compute

variable (plan : Plan) (profile : Value) (fallback : TravelSpan)

/-- Both bounds of a compared axis come from entries that describe them. -/
theorem describes_of_get?_details {axis : Axis} {detail : AxisComparison}
    (h : (compute plan profile fallback).comparison.details.get? axis = some detail) :
    ∃ entry entry', Bounds.Describes entry detail.planner ∧
      Bounds.Describes entry' detail.machine := by
  change (Comparison.ofSets plan.boundsSet (Machine.bounds profile)).details.get? axis = _ at h
  rw [Comparison.get?_details_ofSets] at h
  obtain ⟨p, hp, h⟩ := Option.bind_eq_some_iff.mp h
  obtain ⟨m, hm, rfl⟩ := Option.map_eq_some_iff.mp h
  obtain ⟨entry, hentry⟩ := ((BoundsSet.get?_ofRecord_eq_some_iff _ _ _).mp hp).describes
  obtain ⟨entry', hentry'⟩ := ((BoundsSet.get?_ofRecord_eq_some_iff _ _ _).mp hm).describes
  exact ⟨entry, entry', hentry, hentry'⟩

/-- The compared limits are finite. -/
theorem isFinite_of_mem_comparison {x : Float}
    (h : x ∈ (compute plan profile fallback).comparison.doubles) : x.isFinite = true := by
  obtain ⟨entry, hentry, hx⟩ := List.mem_flatMap.mp h
  obtain ⟨axis, -, hget⟩ := List.mem_filterMap.mp hentry
  obtain ⟨detail, hdetail, rfl⟩ := Option.map_eq_some_iff.mp hget
  obtain ⟨_, _, hplanner, hmachine⟩ := describes_of_get?_details plan profile fallback hdetail
  simp only [AxisComparison.doubles, Bounds.doubles, List.mem_append, List.mem_cons,
    List.not_mem_nil, or_false] at hx
  rcases hx with (rfl | rfl) | (rfl | rfl)
  · exact hplanner.finite_min
  · exact hplanner.finite_max
  · exact hmachine.finite_min
  · exact hmachine.finite_max

/-- **The doubles of a computed snapshot are finite.** -/
theorem isFinite_of_mem_doubles {x : Float} (h : x ∈ (compute plan profile fallback).doubles) :
    x.isFinite = true := by
  have hbox : (compute plan profile fallback).envelope.Drawable :=
    EnvelopeBox.drawable_ofBounds _ fallback
  rcases List.mem_append.mp h with h | h
  · exact isFinite_of_mem_comparison plan profile fallback h
  · simp only [EnvelopeBox.doubles, List.mem_cons, List.not_mem_nil, or_false] at h
    rcases h with rfl | rfl | rfl | rfl | rfl | rfl
    · exact hbox.width.1
    · exact hbox.depth.1
    · exact hbox.height.1
    · exact hbox.centerX
    · exact hbox.centerY
    · exact hbox.centerZ

/-- The box of a computed snapshot has a size along each axis. -/
theorem envelope_pos_compute :
    0.0 < (compute plan profile fallback).envelope.width ∧
      0.0 < (compute plan profile fallback).envelope.depth ∧
      0.0 < (compute plan profile fallback).envelope.height := by
  have hbox : (compute plan profile fallback).envelope.Drawable :=
    EnvelopeBox.drawable_ofBounds _ fallback
  exact ⟨hbox.width.2, hbox.depth.2, hbox.height.2⟩

end Compute

/-- **Every snapshot that is computed is well formed**, whatever the three records
hold. -/
theorem wellFormed_compute (payload profile fallback : Value) :
    WellFormed payload
      (compute (Plan.ofRecord payload) profile (TravelSpan.ofRecord fallback)) where
  finite _ hx := isFinite_of_mem_doubles _ _ _ hx
  nullFree := nullFree_toRecord fun _ hx => isFinite_of_mem_doubles _ _ _ hx
  envelope_pos := envelope_pos_compute _ _ _
  details_ordered := by
    intro axis detail hdetail
    obtain ⟨_, _, hplanner, hmachine⟩ := describes_of_get?_details _ _ _ hdetail
    exact ⟨hplanner.min_le_max, hmachine.min_le_max⟩
  feeds_ascending := Pulses.pairwise_steps_detect _ _
  feeds_lt _ hstep := Pulses.lt_length_of_mem_detect hstep
  eventCount := Plan.countsEvents_ofRecord payload
  feeds_eq := rfl
  baseline_finite _ hx := Plan.isFinite_of_baseline? hx

end Snapshot

end YarnPreview
