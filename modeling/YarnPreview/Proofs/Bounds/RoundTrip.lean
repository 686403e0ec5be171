import Mathlib
import YarnPreview.Comparison
import YarnPreview.Proofs.Envelope.Extent
import YarnPreview.Proofs.Value.Written

/-!
# Bounds, written and read again

A bounds set that was written into a record can be read in two ways, strictly or as any
record from outside.  This module shows that both give back a set of normal bounds, and
what the second one makes of all others: it drops them, axis by axis.

## Main definitions

* `BoundsSet.Normal` — every bounds in the set is normal

## Main statements

* `Bounds.normalize?_toRecord` — written bounds normalise when they are normal
* `BoundsSet.get?_ofRecord_toRecord` — a written set, read again, keeps its normal bounds
* `BoundsSet.decode?_toRecord` — a written set of finite limits, decoded
* `TravelSpan.ofRecord_toRecord` — a written fallback span, read again
* `BoundsSet.written_reread` — all of this together

## Design notes

**Null keeps out what is not finite**, in two ways.  As a limit it counts as undefined, and
no other name of the limit was written, so the entry has none.  As a size of a fallback span
it counts as zero, which is no usable size.  Inverted bounds are written as they are, and it is
normalisation that drops them.
-/

namespace YarnPreview

namespace Bounds

/-! ### One axis -/

/-- **A limit that was written under its first name and no other**: itself when it is
finite, NaN when it is not. -/
theorem limit_of_written {fields : Fields Value} {name : String} {aliases : List String}
    {x : Float} (hname : fields.get? name = some (.ofFloatOrNull x))
    (haliases : ∀ other ∈ aliases, fields.get? other = none) :
    limit fields (name :: aliases) = if x.isFinite then x else notANumber := by
  cases hx : x.isFinite with
  | true =>
      rw [Value.ofFloatOrNull_of_isFinite hx] at hname
      have hfirst : firstDefined? fields (name :: aliases) = some (.number (.double x hx)) := by
        show List.findSome? _ (name :: aliases) = _
        rw [List.findSome?_cons, hname]
        rfl
      rw [limit, hfirst]
      rfl
  | false =>
      rw [Value.ofFloatOrNull_of_not_isFinite hx] at hname
      have hnone : firstDefined? fields (name :: aliases) = none := by
        apply List.findSome?_eq_none_iff.mpr
        intro other hother
        rcases List.mem_cons.mp hother with rfl | hother
        · rw [hname]
          rfl
        · rw [haliases other hother]
          rfl
      rw [limit, hnone]
      rfl

/-- The limits that are read off written bounds. -/
theorem ofFields_toRecord (b : Bounds) :
    b.toRecord.fields?.map ofFields =
      some ⟨if b.min.isFinite then b.min else notANumber,
        if b.max.isFinite then b.max else notANumber⟩ := by
  have hget : ∀ name, b.toRecord.field? name =
      Fields.get? [("min", .ofFloatOrNull b.min), ("max", .ofFloatOrNull b.max)] name :=
    Value.field?_ofFields (by decide : ["min", "max"].Nodup)
  have hothers : ∀ other ∈ ["min_mm", "minimum", "low"] ++ ["max_mm", "maximum", "high"],
      b.toRecord.field? other = none := by
    intro other hother
    rw [hget, Fields.get?_eq_none_iff]
    revert other
    exact (by decide : ∀ other ∈ ["min_mm", "minimum", "low"] ++ ["max_mm", "maximum", "high"],
      other ∉ ["min", "max"])
  obtain ⟨hmin, hmax⟩ := List.forall_mem_append.mp hothers
  exact congrArg some (congrArg₂ Bounds.mk (limit_of_written (hget "min") hmin)
    (limit_of_written (hget "max") hmax))

/-- **Written bounds, read again**, are themselves when they are normal, and nothing
otherwise. -/
theorem normalize?_toRecord (b : Bounds) :
    normalize? b.toRecord = if b.isNormal then some b else none := by
  rw [normalize?, ofFields_toRecord]
  have hnan : notANumber.isFinite = false := by decide
  cases hmin : b.min.isFinite with
  | false => simp [isNormal, hmin, hnan]
  | true =>
      cases hmax : b.max.isFinite with
      | false => simp [isNormal, hmax, hnan]
      | true => simp [Option.filter_some]

/-- Absent or written bounds, read again. -/
theorem normalize?_ofOption (bounds : Option Bounds) :
    normalize? (.ofOption toRecord bounds) = bounds.filter isNormal := by
  cases bounds with
  | none => rfl
  | some b =>
      rw [Option.filter_some]
      exact normalize?_toRecord b

/-- **Written bounds, decoded**, are themselves when their limits are finite, in whatever
order. -/
theorem decode?_toRecord {b : Bounds} (hmin : b.min.isFinite = true)
    (hmax : b.max.isFinite = true) : decode? b.toRecord = some b := by
  have hlayout : b.toRecord.layout? ["min", "max"] 0 =
      some [some (.ofFloatOrNull b.min), some (.ofFloatOrNull b.max)] := by
    apply Value.layout?_ofFields 0
    exact (by decide : ["min", "max"].Nodup)
  rw [decode?, hlayout]
  simp [Value.required?, Value.float?_ofFloatOrNull hmin, Value.float?_ofFloatOrNull hmax]

end Bounds

/-! ### Maps of axes -/

namespace AxisMap

variable {α : Type} (encode : α → Value) (map : AxisMap α)

/-- Lookup in a written map, by the fields that were written. -/
theorem field?_toRecord (name : String) :
    (map.toRecord encode).field? name =
      Fields.get? (Axis.all.map fun axis => (axis.name, .ofOption encode (map.get? axis))) name := by
  apply Value.field?_ofFields
  exact (by decide : (Axis.all.map Axis.name).Nodup)

/-- A written map has a field for every axis … -/
theorem field?_toRecord_name (axis : Axis) :
    (map.toRecord encode).field? axis.name = some (.ofOption encode (map.get? axis)) := by
  rw [field?_toRecord]
  cases axis <;> rfl

/-- … and no other. -/
theorem field?_toRecord_of_notMem {name : String} (h : name ∉ Axis.all.map Axis.name) :
    (map.toRecord encode).field? name = none := by
  rw [field?_toRecord, Fields.get?_eq_none_iff]
  exact h

end AxisMap

namespace BoundsSet

/-! ### A bounds set -/

/-- **A set of normal bounds**: on every axis that it knows, finite limits in order. -/
def Normal (set : BoundsSet) : Prop :=
  ∀ axis b, set.get? axis = some b → b.isNormal = true

/-- What is read off a record is normal. -/
theorem normal_ofRecord (record : Value) : (ofRecord record).Normal := by
  intro axis b hb
  rw [get?_ofRecord] at hb
  obtain ⟨fields, -, hfields⟩ := Option.bind_eq_some_iff.mp hb
  obtain ⟨key, -, hkey⟩ := List.exists_of_findSome?_eq_some hfields
  obtain ⟨entry, -, hentry⟩ := Option.bind_eq_some_iff.mp hkey
  exact Bounds.isNormal_of_normalize? hentry

/-- **A written set, read again**, keeps its normal bounds and drops the others.  Every axis
is under its own name, and the second name of the extrusion axis is not there. -/
theorem get?_ofRecord_toRecord (set : BoundsSet) (axis : Axis) :
    (ofRecord set.toRecord).get? axis = (set.get? axis).filter Bounds.isNormal := by
  have hname : (set.toRecord.field? axis.name).bind Bounds.normalize? =
      (set.get? axis).filter Bounds.isNormal := by
    rw [toRecord, AxisMap.field?_toRecord_name, Option.bind_some, Bounds.normalize?_ofOption]
  have hextrusion : set.toRecord.field? "extrusion" = none :=
    AxisMap.field?_toRecord_of_notMem _ _ (by decide)
  have hsearch : (ofRecord set.toRecord).get? axis =
      axis.recordKeys.findSome? fun key => (set.toRecord.field? key).bind Bounds.normalize? :=
    get?_ofRecord set.toRecord axis
  rw [hsearch, ← hname]
  cases axis with
  | e =>
      show List.findSome? _ ["e", "extrusion"] =
        (set.toRecord.field? "e").bind Bounds.normalize?
      rw [List.findSome?_cons, List.findSome?_cons, hextrusion]
      cases (set.toRecord.field? "e").bind Bounds.normalize? <;> rfl
  | x => exact List.findSome?_singleton
  | y => exact List.findSome?_singleton
  | z => exact List.findSome?_singleton

/-- Inverted bounds go, and so do bounds with a limit that is no number; a signed zero
stays. -/
example :
    ofRecord (toRecord ⟨some ⟨-0.0, 0.0⟩, some ⟨2.5, -1.5⟩, some ⟨notANumber, 1.0⟩, none⟩) =
      ⟨some ⟨-0.0, 0.0⟩, none, none, none⟩ := by decide +kernel

/-- A written set, read again, is itself exactly when it is normal. -/
theorem ofRecord_toRecord_eq_iff (set : BoundsSet) : ofRecord set.toRecord = set ↔ set.Normal := by
  constructor
  · intro h
    rw [← h]
    exact normal_ofRecord _
  · intro h
    apply AxisMap.ext_get?
    intro axis
    rw [get?_ofRecord_toRecord]
    cases hb : set.get? axis with
    | none => rfl
    | some b => exact Option.filter_eq_some_iff.mpr ⟨rfl, h axis b hb⟩

/-- **A written set, decoded**, is itself when all of its limits are finite. -/
theorem decode?_toRecord {set : BoundsSet}
    (h : ∀ axis b, set.get? axis = some b → b.min.isFinite = true ∧ b.max.isFinite = true) :
    decode? set.toRecord = some set := by
  have haxis : ∀ axis, Value.optional? Bounds.decode?
      (some (.ofOption Bounds.toRecord (set.get? axis))) = some (set.get? axis) := by
    intro axis
    apply Value.optional?_ofOption rfl
    intro b hb
    exact Bounds.decode?_toRecord (h axis b hb).1 (h axis b hb).2
  have hlayout : set.toRecord.layout? (Axis.all.map Axis.name) 0 =
      some (Axis.all.map fun axis => some (.ofOption Bounds.toRecord (set.get? axis))) := by
    apply Value.layout?_ofFields 0
    exact (by decide : (Axis.all.map Axis.name).Nodup)
  rw [decode?, hlayout]
  simp only [Axis.all, List.map_cons, List.map_nil, Option.bind_eq_bind, Option.bind_some, haxis]
  rfl

end BoundsSet

/-! ### A fallback span -/

namespace TravelSpan

/-- A size is as usable after it was written as before: what is not finite becomes zero. -/
theorem usableSize_coerce_ofFloatOrNull (size : Float) :
    usableSize (Value.ofFloatOrNull size).coerce = usableSize size := by
  rw [Value.coerce_ofFloatOrNull]
  cases h : size.isFinite with
  | true => rfl
  | false =>
      have hzero : usableSize 0.0 = false := by decide
      have hsize : usableSize size = false := by
        rw [usableSize, h]
        rfl
      exact hzero.trans hsize.symm

/-- **A written span, read again**, is itself when it is usable and the standard span
otherwise. -/
theorem ofRecord_toRecord (span : TravelSpan) :
    ofRecord span.toRecord = if span.isUsable then span else standard := by
  let written : TravelSpan :=
    ⟨(Value.ofFloatOrNull span.x).coerce, (Value.ofFloatOrNull span.y).coerce,
      (Value.ofFloatOrNull span.z).coerce⟩
  have hread : ofRecord span.toRecord = written.orStandard := by
    have hget : ∀ name, span.toRecord.field? name = Fields.get?
        [("x", .ofFloatOrNull span.x), ("y", .ofFloatOrNull span.y),
          ("z", .ofFloatOrNull span.z)] name :=
      Value.field?_ofFields (by decide : ["x", "y", "z"].Nodup)
    show (TravelSpan.mk ((span.toRecord.field? "x").elim notANumber Value.coerce)
      ((span.toRecord.field? "y").elim notANumber Value.coerce)
      ((span.toRecord.field? "z").elim notANumber Value.coerce)).orStandard = _
    rw [hget, hget, hget]
    rfl
  have husable : written.isUsable = span.isUsable := by
    simp only [isUsable, written, usableSize_coerce_ofFloatOrNull]
  rw [hread, orStandard, husable]
  split
  · next h =>
      obtain ⟨hx, hy, hz⟩ := (isUsable_iff span).mp h
      rw [usableSize_iff] at hx hy hz
      simp only [written, Value.coerce_ofFloatOrNull, hx.1, hy.1, hz.1, if_true]
  · rfl

end TravelSpan

namespace BoundsSet

/-! ### All of it -/

/-- **Bounds and spans survive being written and read again.**  Read as any record, a written
bounds set keeps, bit for bit, each bounds with finite limits that are not inverted, and drops
the others; so it is itself exactly when it is normal, reading a record twice is reading it
once, and comparing written sets is comparing the sets.  Decoded, a written set of normal
bounds is itself.  A written fallback span is itself when it is usable, and the standard span
otherwise. -/
theorem written_reread :
    (∀ (set : BoundsSet) (axis : Axis) (b : Bounds),
      (ofRecord set.toRecord).get? axis = some b ↔
        set.get? axis = some b ∧ b.min.isFinite = true ∧ b.max.isFinite = true ∧
          ¬ b.max < b.min) ∧
    (∀ set : BoundsSet, ofRecord set.toRecord = set ↔ set.Normal) ∧
    (∀ record : Value, ofRecord (ofRecord record).toRecord = ofRecord record) ∧
    (∀ planner machine : BoundsSet, planner.Normal → machine.Normal →
      Comparison.ofRecords planner.toRecord machine.toRecord =
        Comparison.ofSets planner machine) ∧
    (∀ set : BoundsSet, set.Normal → decode? set.toRecord = some set) ∧
    ∀ span : TravelSpan,
      TravelSpan.ofRecord span.toRecord = if span.isUsable then span else .standard := by
  refine ⟨?_, ofRecord_toRecord_eq_iff, ?_, ?_, ?_, TravelSpan.ofRecord_toRecord⟩
  · intro set axis b
    rw [get?_ofRecord_toRecord, Option.filter_eq_some_iff, Bounds.isNormal, Bool.and_eq_true,
      Bool.and_eq_true, Bool.not_eq_true', decide_eq_false_iff_not, and_assoc]
  · intro record
    exact (ofRecord_toRecord_eq_iff _).mpr (normal_ofRecord record)
  · intro planner machine hplanner hmachine
    rw [Comparison.ofRecords, (ofRecord_toRecord_eq_iff _).mpr hplanner,
      (ofRecord_toRecord_eq_iff _).mpr hmachine]
  · intro set h
    apply decode?_toRecord
    intro axis b hb
    have hnormal := h axis b hb
    rw [Bounds.isNormal, Bool.and_eq_true, Bool.and_eq_true] at hnormal
    exact hnormal.1

/-- Bounds between the two zeros on one axis, and between two numbers on another. -/
def aroundZero : BoundsSet :=
  { AxisMap.empty with x := some ⟨-0.0, 0.0⟩, e := some ⟨-1.5, 2.5⟩ }

/-- The set is normal: its first bounds have a negative zero below a positive one, and both
signs come back. -/
theorem written_reread_aroundZero :
    aroundZero.Normal ∧ decode? aroundZero.toRecord = some aroundZero ∧
      Comparison.ofRecords aroundZero.toRecord aroundZero.toRecord =
        Comparison.ofSets aroundZero aroundZero := by
  obtain ⟨-, -, -, hcomparison, hdecoded, -⟩ := written_reread
  have hnormal : aroundZero.Normal := by
    intro axis b hb
    cases axis <;> cases hb <;> decide
  exact ⟨hnormal, hdecoded _ hnormal, hcomparison _ _ hnormal hnormal⟩

end BoundsSet

end YarnPreview
