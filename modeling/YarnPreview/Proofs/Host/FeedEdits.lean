import Mathlib
import YarnPreview.Host.Calls
import YarnPreview.Proofs.Feed.Rereading
import YarnPreview.Proofs.Host.Boundary
import YarnPreview.Proofs.Value.Lookup

/-!
# Edits that detection does not see

The host hands over events as loose objects.  A property may hold anything, and what holds
no number must count as if it were not there: read as zero it would reset the running
extrusion, and pulses would appear or vanish later in the plan.  This module lists the edits
of events that leave the pulses as they are, and shows that they do.

## Main definitions

* `HostValue.NoExtrusion` — the values that are no finite extrusion
* `HostValue.EventEdit`, `HostValue.BaselineEdit` — one edit of an event, and of the baseline

## Main statements

* `HostValue.get?_toRecordFields_without`, `HostValue.get?_toRecordFields_congr` — what an
  edit of properties does to the record
* `HostValue.EventEdit.sameFeed` — one edit leaves what detection reads of an event
* `Host.feedIndices_edits` — any number of edits leaves the pulses

## Four ways of being no number

**Dropped**: an undefined property does not enter the record.  **Named**: a number that is
not finite enters by its name, which coercion reads back.  **Coerced to NaN**: an object, and
an array of two or more items.  **Coerced out of range**: a text, possibly that of an
infinity.  In the last three cases the coerced double is not finite and is left out when the
event is read.  A null takes none of the four ways: it is zero.
-/

namespace YarnPreview

namespace HostValue

/-! ### The edits -/

/-- **The values that are no finite extrusion.** -/
inductive NoExtrusion : HostValue → Prop
  | undefined : NoExtrusion .undefined
  | number {x : Float} (h : x.isFinite = false) : NoExtrusion (.number x)
  | object (fields : List (String × HostValue)) : NoExtrusion (.object fields)
  | array {items : List HostValue} (h : 2 ≤ items.length) : NoExtrusion (.array items)
  | string {text : String} (h : (coerceText text.toList).isFinite = false) :
      NoExtrusion (.string text)

/-- **One edit of an event**: its extrusion is deleted, if it is no finite one; its comment is
deleted, if it is no text; or properties of other names are added, changed and removed. -/
inductive EventEdit : HostValue → HostValue → Prop
  | dropExtrusion {fields : List (String × HostValue)}
      (h : ∀ value, ("extrusion", value) ∈ fields → NoExtrusion value) :
      EventEdit (.object fields) (.object (Fields.without "extrusion" fields))
  | dropComment {fields : List (String × HostValue)}
      (h : ∀ value, ("comment", value) ∈ fields → ∀ text, value ≠ .string text) :
      EventEdit (.object fields) (.object (Fields.without "comment" fields))
  | changeOthers {fields others : List (String × HostValue)}
      (h : ∀ name ∈ ["comment", "extrusion"], Fields.only name fields = Fields.only name others) :
      EventEdit (.object fields) (.object others)

/-- **An edit of the baseline**: none, or undefined for anything that is no finite number of
the host. -/
inductive BaselineEdit (baseline : HostValue) : HostValue → Prop
  | keep : BaselineEdit baseline baseline
  | drop (h : ∀ x, baseline = .number x → x.isFinite = false) : BaselineEdit baseline .undefined

/-! ### Edits and the record -/

/-- Deleting a property deletes its field and no other. -/
theorem get?_toRecordFields_without (name : String) (fields : List (String × HostValue))
    (other : String) :
    (toRecordFields (Fields.without name fields)).get? other =
      if other = name then none else (toRecordFields fields).get? other := by
  have hcomm : (Fields.without name fields).filter (fun field => !field.2.isUndefined) =
      Fields.without name (fields.filter fun field => !field.2.isUndefined) := by
    rw [Fields.without, Fields.without, List.filter_comm]
  rw [get?_toRecordFields, get?_toRecordFields, hcomm, Fields.get?_without]
  split <;> rfl

/-- The properties of one name decide about its field. -/
theorem get?_toRecordFields_congr {name : String} {fields others : List (String × HostValue)}
    (h : Fields.only name fields = Fields.only name others) :
    (toRecordFields fields).get? name = (toRecordFields others).get? name := by
  have hcomm : ∀ fields : List (String × HostValue),
      Fields.only name (fields.filter fun field => !field.2.isUndefined) =
        (Fields.only name fields).filter fun field => !field.2.isUndefined := by
    intro fields
    rw [Fields.only, Fields.only, List.filter_comm]
  rw [get?_toRecordFields, get?_toRecordFields, ← Fields.get?_only,
    ← Fields.get?_only name (others.filter _), hcomm, hcomm, h]

/-- A field of the record is what some defined property means. -/
theorem exists_mem_of_get?_toRecordFields {fields : List (String × HostValue)} {name : String}
    {field : Value} (h : (toRecordFields fields).get? name = some field) :
    ∃ value, (name, value) ∈ fields ∧ value.isUndefined = false ∧ value.toRecord = field := by
  rw [get?_toRecordFields] at h
  obtain ⟨value, hvalue, hfield⟩ := Option.map_eq_some_iff.mp h
  obtain ⟨hmem, hdefined⟩ := List.mem_filter.mp (Fields.mem_of_get?_eq_some hvalue)
  exact ⟨value, hmem, by simpa using hdefined, hfield⟩

/-! ### What detection reads -/

/-- A defined value that is no finite extrusion has no finite double. -/
theorem NoExtrusion.isFinite_coerce {value : HostValue} (h : value.NoExtrusion)
    (hdefined : value.isUndefined = false) : value.toRecord.coerce.isFinite = false := by
  cases h with
  | undefined => cases hdefined
  | number h => rwa [coerce_toRecord_number]
  | object fields =>
      rw [toRecord, Value.coerce_object]
      decide
  | @array items h =>
      obtain ⟨first, second, rest, rfl⟩ : ∃ first second rest, items = first :: second :: rest := by
        match items, h with
        | first :: second :: rest, _ => exact ⟨first, second, rest, rfl⟩
      rw [toRecord, toRecords, toRecords, Value.coerce]
      decide
  | string h => exact h

/-- A value that is no text does not speak of feeding: as a comment it is nothing, or the
name of a number that is not finite. -/
theorem mentions_feedWord_of_not_text {value : HostValue} (h : ∀ text, value ≠ .string text)
    {comment : String} (hcomment : value.toRecord.string? = some comment) :
    Text.mentions feedWord comment.toList = false := by
  cases value with
  | string text => exact absurd rfl (h text)
  | number x =>
      rw [toRecord, Value.ofFloatOrName] at hcomment
      split at hcomment
      · cases hcomment
      · cases hcomment
        rw [Value.nonFiniteName]
        split
        · decide
        · split <;> decide
  | _ => cases hcomment

end HostValue

namespace Event

/-- An event is the same for detection as itself. -/
theorem SameFeed.refl (event : Event) : event.SameFeed event := ⟨rfl, rfl⟩

/-- What is the same in two steps is the same. -/
theorem SameFeed.trans {event middle other : Event} (h : event.SameFeed middle)
    (h' : middle.SameFeed other) : event.SameFeed other :=
  ⟨h.mentionsFeed.trans h'.mentionsFeed, h.measured.trans h'.measured⟩

/-- **Detection reads two fields of a record**: the comment for the word in it, and the
extrusion for its finite double. -/
theorem sameFeed_ofFields {fields others : Fields Value}
    (hcomment : (ofFields fields).mentionsFeed = (ofFields others).mentionsFeed)
    (hextrusion : Value.finiteField? fields "extrusion" = Value.finiteField? others "extrusion") :
    (ofFields fields).SameFeed (ofFields others) where
  mentionsFeed := hcomment
  measured := congrArg (Option.filter Float.isFinite) hextrusion

/-- Records with one comment speak of feeding alike. -/
theorem mentionsFeed_ofFields_congr {fields others : Fields Value}
    (h : fields.get? "comment" = others.get? "comment") :
    (ofFields fields).mentionsFeed = (ofFields others).mentionsFeed := by
  simp only [mentionsFeed, ofFields, h]

/-- Records with one extrusion give one number. -/
theorem finiteField?_congr {fields others : Fields Value} {name : String}
    (h : fields.get? name = others.get? name) :
    Value.finiteField? fields name = Value.finiteField? others name := by
  simp only [Value.finiteField?, h]

end Event

namespace HostValue

/-- An event whose extrusion is no finite one gives none. -/
theorem finiteField?_of_noExtrusion {fields : List (String × HostValue)}
    (h : ∀ value, ("extrusion", value) ∈ fields → NoExtrusion value) :
    Value.finiteField? (toRecordFields fields) "extrusion" = none := by
  rw [Value.finiteField?]
  cases hfield : (toRecordFields fields).get? "extrusion" with
  | none => rfl
  | some field =>
      obtain ⟨value, hmem, hdefined, rfl⟩ := exists_mem_of_get?_toRecordFields hfield
      rw [Option.map_some, Option.filter_some, (h value hmem).isFinite_coerce hdefined]
      rfl

/-- An event whose comment is no text does not speak of feeding. -/
theorem mentionsFeed_of_no_text {fields : List (String × HostValue)}
    (h : ∀ value, ("comment", value) ∈ fields → ∀ text, value ≠ .string text) :
    (Event.ofFields (toRecordFields fields)).mentionsFeed = false := by
  simp only [Event.mentionsFeed, Event.ofFields]
  cases hfield : (toRecordFields fields).get? "comment" with
  | none => rfl
  | some field =>
      obtain ⟨value, hmem, -, rfl⟩ := exists_mem_of_get?_toRecordFields hfield
      rw [Option.bind_some]
      cases hcomment : value.toRecord.string? with
      | none => rfl
      | some comment => exact mentions_feedWord_of_not_text (h value hmem) hcomment

/-- **One edit leaves what detection reads of an event.**  An edit of one property leaves the
other as it was; a deleted one gave nothing before. -/
theorem EventEdit.sameFeed {event other : HostValue} (h : event.EventEdit other) :
    (Event.ofRecord event.toRecord).SameFeed (Event.ofRecord other.toRecord) := by
  cases h with
  | @dropExtrusion fields h =>
      have hcomment := get?_toRecordFields_without "extrusion" fields "comment"
      have hextrusion := get?_toRecordFields_without "extrusion" fields "extrusion"
      rw [toRecord, toRecord]
      apply Event.sameFeed_ofFields
      · exact Event.mentionsFeed_ofFields_congr (by rw [hcomment, if_neg (by decide)])
      · rw [finiteField?_of_noExtrusion h, Value.finiteField?, hextrusion, if_pos rfl]
        rfl
  | @dropComment fields h =>
      have hcomment := get?_toRecordFields_without "comment" fields "comment"
      have hextrusion := get?_toRecordFields_without "comment" fields "extrusion"
      rw [toRecord, toRecord]
      apply Event.sameFeed_ofFields
      · rw [mentionsFeed_of_no_text h, Event.mentionsFeed, Event.ofFields, hcomment, if_pos rfl]
        rfl
      · exact Event.finiteField?_congr (by rw [hextrusion, if_neg (by decide)])
  | changeOthers h =>
      rw [toRecord, toRecord]
      apply Event.sameFeed_ofFields
      · exact Event.mentionsFeed_ofFields_congr (get?_toRecordFields_congr (h _ (by decide)))
      · exact Event.finiteField?_congr (get?_toRecordFields_congr (h _ (by decide)))

/-- **Any number of edits** does so too. -/
theorem sameFeed_of_edits {event other : HostValue}
    (h : Relation.ReflTransGen EventEdit event other) :
    (Event.ofRecord event.toRecord).SameFeed (Event.ofRecord other.toRecord) := by
  induction h with
  | refl => exact Event.SameFeed.refl _
  | tail _ hedit ih => exact ih.trans hedit.sameFeed

/-- An edit leaves the finite number that the baseline is. -/
theorem BaselineEdit.finiteNumber? {baseline other : HostValue}
    (h : baseline.BaselineEdit other) : baseline.finiteNumber? = other.finiteNumber? := by
  cases h with
  | keep => rfl
  | drop h =>
      cases baseline with
      | number x =>
          rw [HostValue.finiteNumber?, h x rfl]
          rfl
      | _ => rfl

end HostValue

namespace Host

open HostValue (EventEdit BaselineEdit)

/-- **Edits leave the pulses as they are.**  Any events of a list may be edited, each any
number of times: an extrusion that is no finite one deleted, a comment that is no text
deleted, other properties added, changed and removed; and a baseline that is no finite
number replaced by undefined. -/
theorem feedIndices_edits {events others : List HostValue} {baseline baseline' : HostValue}
    (hevents : List.Forall₂ (Relation.ReflTransGen EventEdit) events others)
    (hbaseline : baseline.BaselineEdit baseline') :
    feedIndices (.array events) baseline = feedIndices (.array others) baseline' := by
  have hread : List.Forall₂ Event.SameFeed
      (Event.listOfRecord (HostValue.array events).toRecord)
      (Event.listOfRecord (HostValue.array others).toRecord) := by
    show List.Forall₂ Event.SameFeed ((HostValue.toRecords events).map Event.ofRecord)
      ((HostValue.toRecords others).map Event.ofRecord)
    rw [HostValue.toRecords_eq_map, HostValue.toRecords_eq_map, List.map_map, List.map_map,
      List.forall₂_map_left_iff, List.forall₂_map_right_iff]
    exact hevents.imp fun event other h => HostValue.sameFeed_of_edits h
  rw [feedIndices, feedIndices, Pulses.detect_congr hread, hbaseline.finiteNumber?]

/-- A null is an extrusion, of zero: deleting it takes a pulse away. -/
example :
    let event := fun value => HostValue.object [("extrusion", value)]
    let detected := fun events =>
      (Pulses.detect (Event.listOfRecord (HostValue.array events).toRecord) none).steps
    detected [event (.number 1.0), event .null, event (.number 1.0)] = [2] ∧
      detected [event (.number 1.0), .object [], event (.number 1.0)] = [] := by
  decide +kernel

/-- An event of an extrusion alone. -/
def extruding (value : HostValue) : HostValue :=
  .object [("extrusion", value)]

/-- An event with numbers that are not finite for extrusion and comment, and a property that
speaks of feeding under another name. -/
def garbled : HostValue :=
  .object [("tool", .string "feed"), ("extrusion", .number notANumber),
    ("comment", .number (infinite true))]

/-- The garbled event and a text out of range, between two measurements, count as nothing, and
so does a baseline that is a text; the second measurement is the only pulse. -/
theorem feedIndices_edits_garbled :
    List.Forall₂ (Relation.ReflTransGen EventEdit)
        [extruding (.number 1.0), garbled, extruding (.string "1e999"), extruding (.string "2")]
        [extruding (.number 1.0), .object [("line", .null)], .object [], extruding (.string "2")] ∧
      (HostValue.string "0").BaselineEdit .undefined ∧
      feedIndices (.array [extruding (.number 1.0), garbled, extruding (.string "1e999"),
          extruding (.string "2")]) (.string "0") =
        .array [.number 3.0] := by
  have hextrusion : EventEdit garbled
      (.object [("tool", .string "feed"), ("comment", .number (infinite true))]) := by
    refine .dropExtrusion ?_
    intro value hvalue
    have hnumber : value = .number notANumber := by simpa using hvalue
    rw [hnumber]
    exact .number (by decide)
  have hcomment : EventEdit
      (.object [("tool", .string "feed"), ("comment", .number (infinite true))])
      (.object [("tool", .string "feed")]) := by
    refine .dropComment ?_
    intro value hvalue text
    have hnumber : value = .number (infinite true) := by simpa using hvalue
    rw [hnumber]
    exact HostValue.noConfusion
  have hothers : EventEdit (.object [("tool", .string "feed")]) (.object [("line", .null)]) := by
    refine .changeOthers ?_
    simp [Fields.only]
  have htext : EventEdit (extruding (.string "1e999")) (.object []) := by
    refine .dropExtrusion ?_
    intro value hvalue
    have hstring : value = .string "1e999" := by simpa using hvalue
    rw [hstring]
    exact .string (by decide +kernel)
  have hevents : List.Forall₂ (Relation.ReflTransGen EventEdit)
      [extruding (.number 1.0), garbled, extruding (.string "1e999"), extruding (.string "2")]
      [extruding (.number 1.0), .object [("line", .null)], .object [],
        extruding (.string "2")] :=
    .cons .refl (.cons (((Relation.ReflTransGen.single hextrusion).tail hcomment).tail hothers)
      (.cons (.single htext) (.cons .refl .nil)))
  have hbaseline : (HostValue.string "0").BaselineEdit .undefined :=
    .drop fun _ h => HostValue.noConfusion h
  have hpulses : feedIndices (.array [extruding (.number 1.0), .object [("line", .null)],
      .object [], extruding (.string "2")]) .undefined = .array [.number 3.0] := by
    rfl
  exact ⟨hevents, hbaseline, (feedIndices_edits hevents hbaseline).trans hpulses⟩

end Host

end YarnPreview
