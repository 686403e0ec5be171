import Mathlib
import YarnPreview.Proofs.Feed.Chunks
import YarnPreview.Proofs.Value.Written

/-!
# Events, written and read again

An event is written with a null for each number that it lacks.  Strict decoding takes that
null for absence, and the event comes back.  The lenient reader takes it for zero, and a step
that reported no extrusion comes back as one that reports an extrusion of zero: the running
value falls to zero there, and pulses appear or vanish later in the plan.  This module says
exactly what comes back, and when detection cannot tell the difference.

## Main definitions

* `Event.FiniteNumbers` — every number of an event is absent or finite
* `Event.filled` — the event with zero for every number that it lacks
* `Event.SameFeed` — two events that detection cannot tell apart

## Main statements

* `Event.ofRecord_toRecord` — a written event, read leniently, whatever its numbers are
* `Event.decode?_toRecord` — a written event, decoded
* `Pulses.detect_congr` — detection reads comments and finite extrusions only
* `Event.written_events_reread` — both readers, and detection on a list that was read again

## Design notes

**A number that is not finite is written as null too**, so the lenient reader makes a zero of
a NaN as it does of nothing.  `Event.ofRecord_toRecord` covers such events; the round trips are
about events whose numbers, as far as they are there, are finite.
-/

namespace YarnPreview

/-! ### Numbers -/

/-- **What is read for a number that was written**: the number if it is there and finite, and
zero otherwise. -/
def rereadNumber (number : Option Float) : Float :=
  (number.filter Float.isFinite).getD 0.0

/-- A number that may be absent, written and coerced. -/
theorem Value.coerce_ofOption_ofFloatOrNull (number : Option Float) :
    (ofOption ofFloatOrNull number).coerce = rereadNumber number := by
  cases number with
  | none => rfl
  | some x =>
      show (ofFloatOrNull x).coerce = _
      rw [coerce_ofFloatOrNull, rereadNumber, Option.filter_some]
      split <;> rfl

/-- What is read again is finite. -/
theorem isFinite_rereadNumber (number : Option Float) : (rereadNumber number).isFinite = true := by
  rw [rereadNumber]
  cases h : number.filter Float.isFinite with
  | none => decide
  | some x => exact (Option.filter_eq_some_iff.mp h).2

/-- The finite number in a field that was written. -/
theorem Value.finiteField?_of_written {fields : Fields Value} {name : String}
    {number : Option Float} (h : fields.get? name = some (.ofOption .ofFloatOrNull number)) :
    finiteField? fields name = some (rereadNumber number) := by
  rw [finiteField?, h, Option.map_some, coerce_ofOption_ofFloatOrNull, Option.filter_some,
    if_pos (isFinite_rereadNumber number)]

/-- A number that is absent or finite is read again as itself or as zero. -/
theorem rereadNumber_of_isFinite {number : Option Float}
    (h : ∀ x, number = some x → x.isFinite = true) : rereadNumber number = number.getD 0.0 := by
  cases number with
  | none => rfl
  | some x => rw [rereadNumber, Option.filter_some, if_pos (h x rfl)]

namespace Event

/-! ### The lenient reader -/

/-- The fields of a written event. -/
theorem field?_toRecord (event : Event) (name : String) :
    event.toRecord.field? name = Fields.get?
      [("comment", .ofOption .string event.comment),
       ("extrusion", .ofOption .ofFloatOrNull event.extrusion),
       ("x", .ofOption .ofFloatOrNull event.x), ("y", .ofOption .ofFloatOrNull event.y),
       ("z", .ofOption .ofFloatOrNull event.z)] name := by
  apply Value.field?_ofFields
  exact (by decide : ["comment", "extrusion", "x", "y", "z"].Nodup)

/-- **A written event, read leniently**: its comment, and a number in every place. -/
theorem ofRecord_toRecord (event : Event) :
    ofRecord event.toRecord =
      { comment := event.comment
        extrusion := some (rereadNumber event.extrusion)
        x := some (rereadNumber event.x)
        y := some (rereadNumber event.y)
        z := some (rereadNumber event.z) } := by
  obtain ⟨fields, hfields⟩ : ∃ fields : Fields Value, event.toRecord = .object fields :=
    ⟨_, rfl⟩
  have hget := field?_toRecord event
  rw [hfields] at hget ⊢
  have hcomment : (fields.get? "comment").bind Value.string? = event.comment := by
    rw [show fields.get? "comment" = some (.ofOption .string event.comment) from hget "comment"]
    cases event.comment <;> rfl
  show ofFields fields = _
  rw [ofFields, hcomment, Value.finiteField?_of_written (hget "extrusion"),
    Value.finiteField?_of_written (hget "x"), Value.finiteField?_of_written (hget "y"),
    Value.finiteField?_of_written (hget "z")]

/-- **Every number of an event is absent or finite.** -/
structure FiniteNumbers (event : Event) : Prop where
  extrusion : ∀ number, event.extrusion = some number → number.isFinite = true
  x : ∀ number, event.x = some number → number.isFinite = true
  y : ∀ number, event.y = some number → number.isFinite = true
  z : ∀ number, event.z = some number → number.isFinite = true

/-- **The event with zero for every number that it lacks.** -/
def filled (event : Event) : Event where
  comment := event.comment
  extrusion := some (event.extrusion.getD 0.0)
  x := some (event.x.getD 0.0)
  y := some (event.y.getD 0.0)
  z := some (event.z.getD 0.0)

/-- A written event of finite numbers, read leniently, is filled. -/
theorem ofRecord_toRecord_eq_filled {event : Event} (h : event.FiniteNumbers) :
    ofRecord event.toRecord = event.filled := by
  rw [ofRecord_toRecord, rereadNumber_of_isFinite h.extrusion, rereadNumber_of_isFinite h.x,
    rereadNumber_of_isFinite h.y, rereadNumber_of_isFinite h.z, filled]

/-- Filling changes nothing exactly when every number is there. -/
theorem filled_eq_iff (event : Event) :
    event.filled = event ↔
      event.extrusion.isSome = true ∧ event.x.isSome = true ∧ event.y.isSome = true ∧
        event.z.isSome = true := by
  have hnumber : ∀ number : Option Float,
      some (number.getD 0.0) = number ↔ number.isSome = true := by
    intro number
    cases number <;> simp
  obtain ⟨comment, extrusion, x, y, z⟩ := event
  simp only [filled, Event.mk.injEq, hnumber, true_and]

/-! ### The strict reader -/

/-- **A written event, decoded**, is itself when its numbers are finite. -/
theorem decode?_toRecord {event : Event} (h : event.FiniteNumbers) :
    decode? event.toRecord = some event := by
  have hlayout : event.toRecord.layout? ["comment", "extrusion", "x", "y", "z"] 5 =
      some [some (.ofOption .string event.comment),
        some (.ofOption .ofFloatOrNull event.extrusion), some (.ofOption .ofFloatOrNull event.x),
        some (.ofOption .ofFloatOrNull event.y), some (.ofOption .ofFloatOrNull event.z)] := by
    apply Value.layout?_ofFields 5
    exact (by decide : ["comment", "extrusion", "x", "y", "z"].Nodup)
  have hcomment : Value.optional? Value.string? (some (.ofOption .string event.comment)) =
      some event.comment := by
    apply Value.optional?_ofOption rfl
    intro comment _
    rfl
  have hnumber : ∀ {number : Option Float}, (∀ x, number = some x → x.isFinite = true) →
      Value.optional? Value.float? (some (.ofOption .ofFloatOrNull number)) = some number := by
    intro number hfinite
    apply Value.optional?_ofOption rfl
    intro x hx
    exact Value.float?_ofFloatOrNull (hfinite x hx)
  rw [decode?, hlayout]
  simp only [Option.bind_eq_bind, Option.bind_some, hcomment, hnumber h.extrusion, hnumber h.x,
    hnumber h.y, hnumber h.z]
  rfl

/-! ### Detection -/

/-- **Two events that detection cannot tell apart**: both comments speak of feeding or
neither does, and both measure the same extrusion or none. -/
structure SameFeed (event other : Event) : Prop where
  mentionsFeed : event.mentionsFeed = other.mentionsFeed
  measured : event.measured? = other.measured?

/-- They are pulses alike … -/
theorem SameFeed.isPulse {event other : Event} (h : event.SameFeed other)
    (previous : Option Float) : event.isPulse previous = other.isPulse previous := by
  rw [Event.isPulse, Event.isPulse, h.mentionsFeed, h.measured]

/-- … and carry the same extrusion on. -/
theorem SameFeed.carry {event other : Event} (h : event.SameFeed other)
    (previous : Option Float) : event.carry previous = other.carry previous := by
  rw [Event.carry, Event.carry, h.measured]

end Event

/-- **Two runs over events that are alike** are one. -/
theorem feedsFrom_congr {events others : List Event}
    (h : List.Forall₂ Event.SameFeed events others) (index : Nat) (previous : Option Float) :
    feedsFrom index previous events = feedsFrom index previous others := by
  induction h generalizing index previous with
  | nil => rfl
  | cons hevent hrest ih =>
      rw [feedsFrom_cons, feedsFrom_cons, hevent.isPulse, hevent.carry, ih]

/-- **Detection reads comments and finite extrusions only.** -/
theorem Pulses.detect_congr {events others : List Event}
    (h : List.Forall₂ Event.SameFeed events others) (baseline : Option Float) :
    detect events baseline = detect others baseline := by
  have hsteps : (detect events baseline).steps = (detect others baseline).steps := by
    rw [steps_detect, steps_detect, feedsFrom_congr h]
  exact congrArg Pulses.mk hsteps

namespace Event

/-- An event with a finite extrusion stays the same for detection when it is written and read
again, whatever its position. -/
theorem sameFeed_ofRecord_toRecord {event : Event} {x : Float} (hx : event.extrusion = some x)
    (hfinite : x.isFinite = true) : (ofRecord event.toRecord).SameFeed event := by
  rw [ofRecord_toRecord]
  refine ⟨rfl, ?_⟩
  have hreread : rereadNumber event.extrusion = x := by
    rw [hx, rereadNumber, Option.filter_some, if_pos hfinite]
    rfl
  rw [hreread, ← hx]
  rfl

/-- **Events, written and read again.**  An event whose numbers are absent or finite is decoded
as itself, and read leniently as itself with zero for every number that it lacks; so the two
readers agree exactly on the events that lack none.  On a list of events that all report a
finite extrusion, reading again changes no pulse. -/
theorem written_events_reread :
    (∀ event : Event, event.FiniteNumbers →
      decode? event.toRecord = some event ∧ ofRecord event.toRecord = event.filled ∧
        (ofRecord event.toRecord = event ↔
          event.extrusion.isSome = true ∧ event.x.isSome = true ∧ event.y.isSome = true ∧
            event.z.isSome = true)) ∧
    ∀ events : List Event,
      (∀ event ∈ events, ∃ x, event.extrusion = some x ∧ x.isFinite = true) →
        ∀ baseline : Option Float,
          Pulses.detect (listOfRecord (.array (events.map toRecord))) baseline =
            Pulses.detect events baseline := by
  refine ⟨?_, ?_⟩
  · intro event h
    have hfilled := ofRecord_toRecord_eq_filled h
    refine ⟨decode?_toRecord h, hfilled, ?_⟩
    rw [hfilled]
    exact filled_eq_iff event
  · intro events h baseline
    apply Pulses.detect_congr
    show List.Forall₂ SameFeed ((events.map toRecord).map ofRecord) events
    rw [List.map_map, List.forall₂_map_left_iff, List.forall₂_same]
    intro event hevent
    obtain ⟨x, hx, hfinite⟩ := h event hevent
    exact sameFeed_ofRecord_toRecord hx hfinite

/-- An extrusion that is no number is there and not finite: read again it is zero, and the step
after it becomes a pulse. -/
example :
    let events := [Pulses.reporting 2.0, Pulses.reporting notANumber, Pulses.reporting 2.0]
    (Pulses.detect events none).steps = [] ∧
      (Pulses.detect (listOfRecord (.array (events.map toRecord))) none).steps = [2] := by
  decide +kernel

/-- An event with an extrusion and no position. -/
def unplaced : Event :=
  { empty with comment := some "hop", extrusion := some 1.5 }

/-- The event is decoded as it was and read leniently with a position at the origin; as the
second of two it is a pulse before and after. -/
theorem written_events_reread_unplaced :
    unplaced.FiniteNumbers ∧ decode? unplaced.toRecord = some unplaced ∧
      ofRecord unplaced.toRecord = ⟨some "hop", some 1.5, some 0.0, some 0.0, some 0.0⟩ ∧
      ofRecord unplaced.toRecord ≠ unplaced ∧
      (Pulses.detect (listOfRecord (.array ([Pulses.reporting 1.0, unplaced].map toRecord)))
        (some 1.0)).steps = [1] := by
  obtain ⟨hevent, hlist⟩ := written_events_reread
  have hnumbers : unplaced.FiniteNumbers := by
    refine ⟨?_, ?_, ?_, ?_⟩
    · intro number h
      cases h
      decide
    · intro number h
      cases h
    · intro number h
      cases h
    · intro number h
      cases h
  have hextrusions : ∀ event ∈ [Pulses.reporting 1.0, unplaced],
      ∃ x, event.extrusion = some x ∧ x.isFinite = true := by
    simp only [List.forall_mem_cons]
    exact ⟨⟨1.0, rfl, by decide⟩, ⟨1.5, rfl, by decide⟩, by simp⟩
  obtain ⟨hdecoded, hfilled, hsame⟩ := hevent unplaced hnumbers
  refine ⟨hnumbers, hdecoded, hfilled, ?_, ?_⟩
  · intro h
    have hx : unplaced.x.isSome = true := (hsame.mp h).2.1
    cases hx
  · exact (congrArg Pulses.steps (hlist _ hextrusions (some 1.0))).trans (by decide)

end Event

end YarnPreview
