import Mathlib
import YarnPreview.Proofs.Host.Agreement
import YarnPreview.Proofs.Snapshot.Independence

/-!
# Adapting a profile twice

The record of a profile is itself an object of axes, so it can be given where a profile
is expected.  Then everything is decided once more: where the axes are, how their names
are spelled, and which entries have travel limits.  This module says when the second
decision is the first one.

## Main definitions

* `Machine.HoldsAxes` — a value that reads as a profile with axes of their own
* `Machine.Adapted` — a record that adapting leaves alone

## Main statements

* `Machine.adapted_adaptAxes`, `Machine.Adapted.adaptAxes_eq` — adapted axes are adapted, and
  stay as they are
* `Machine.boundsRecord_boundsRecord_iff` — adapting twice is adapting once, unless the record
  holds an object under `axes`
* `Machine.boundsRecord_again` — an adapted record in place of its profile

## The one name that matters

A profile may have an axis called `AXES`.  Its record then has a field `axes`, and if that
holds an object the second pass takes the object for all the axes there are.  This always
changes the record: the object would have to hold itself.
-/

namespace YarnPreview.Machine

/-! ### Adapted records -/

/-- **A value that reads as a profile with axes of their own**: its field `axes` holds an
object. -/
def HoldsAxes (value : Value) : Prop :=
  ∃ inner, value.field? "axes" = some (.object inner)

/-- **A record that adapting leaves alone**: its names ascend and are in small letters, and
none of its entries has travel limits. -/
structure Adapted (record : Fields Value) : Prop where
  ascending : record.Ascending
  lowercase_name : ∀ name ∈ record.names, Text.lowercase name = name
  not_hasTravel : ∀ field ∈ record, ∀ lower upper, ¬ HasTravel field.2 lower upper

/-- What stands for an entry has no travel limits: they are gone, or there were none. -/
theorem Adapts.not_hasTravel {entry value : Value} (h : Adapts entry value) (lower upper : Value) :
    ¬ HasTravel value lower upper := by
  cases h with
  | unchanged h => exact h lower upper
  | travel _ =>
      rintro ⟨⟨hlower, -⟩, -⟩
      simp [Fields.get?_cons] at hlower

/-- **Adapted axes are adapted**, whatever the axes were. -/
theorem adapted_adaptAxes (axes : Fields Value) : Adapted (adaptAxes axes) where
  ascending := ascending_adaptAxes axes
  lowercase_name := by
    intro name hname
    obtain ⟨source, -, rfl⟩ := (mem_names_adaptAxes axes name).mp hname
    exact Text.lowercase_lowercase source
  not_hasTravel := by
    intro field hfield
    obtain ⟨source, -, hadapts⟩ := exists_mem_of_mem_adaptAxes hfield
    exact hadapts.not_hasTravel

/-- Among names in small letters every entry wins its own. -/
theorem Adapted.winner?_eq {record : Fields Value} (h : Adapted record) (key : String) :
    winner? record key = record.get? key := by
  have hspelling : ∀ field ∈ record, Text.lowercase field.1 = field.1 := fun field hfield =>
    h.lowercase_name field.1 (List.mem_map_of_mem hfield)
  rw [winner?]
  cases hget : record.get? key with
  | some entry => rfl
  | none =>
      -- a name that lowers to the key would be the key itself, and would be found
      have hnone : record.find? (fun field => Text.lowercase field.1 = key) = none := by
        rw [List.find?_eq_none]
        intro field hfield hlower
        rw [decide_eq_true_eq, hspelling field hfield] at hlower
        rw [Fields.get?_eq_none_iff, ← hlower] at hget
        exact hget (List.mem_map_of_mem hfield)
      rw [hnone]
      rfl

/-- **An adapted record stays as it is.** -/
theorem Adapted.adaptAxes_eq {record : Fields Value} (h : Adapted record) :
    adaptAxes record = record := by
  refine (ascending_adaptAxes record).eq_of_get?_eq h.ascending ?_
  intro key
  by_cases hkey : Text.lowercase key = key
  · rw [get?_adaptAxes h.ascending.nodup hkey, h.winner?_eq]
    cases hget : record.get? key with
    | none => rfl
    | some entry =>
        have hstays := adaptEntry_of_not_hasTravel
          (h.not_hasTravel (key, entry) (Fields.mem_of_get?_eq_some hget))
        rw [Option.map_some, hstays]
  · have hnone : ∀ {fields : Fields Value}, Adapted fields → fields.get? key = none :=
      fun hfields => (Fields.get?_eq_none_iff _ _).mpr fun hmem =>
        hkey (hfields.lowercase_name key hmem)
    rw [hnone (adapted_adaptAxes record), hnone h]

/-! ### The second pass -/

/-- The record of an object whose field `axes` holds no object is made of its own fields. -/
theorem boundsRecord_of_not_holdsAxes {fields : Fields Value} (h : ¬ HoldsAxes (.object fields)) :
    boundsRecord (.object fields) = .object (adaptAxes fields) := by
  have haxes : axes? (.object fields) = some fields :=
    (axes?_eq_some_iff _ _).mpr (.bare fun inner hinner => h ⟨inner, hinner⟩)
  rw [boundsRecord, haxes]
  rfl

/-- An object never stands in its own record: it would have to be an entry of itself, or the
travel limits of one, and those have other names. -/
theorem get?_adaptAxes_ne_self (inner : Fields Value) :
    (adaptAxes inner).get? "axes" ≠ some (.object inner) := by
  intro hself
  obtain ⟨source, hsource, hadapts⟩ :=
    exists_mem_of_mem_adaptAxes (Fields.mem_of_get?_eq_some hself)
  generalize hvalue : Value.object inner = value at hadapts
  cases hadapts with
  | unchanged _ =>
      have hsize : sizeOf source.2 < sizeOf (Value.object inner) := by
        have hmem := List.sizeOf_lt_of_mem hsource
        have hsnd : sizeOf source.2 < sizeOf source := by
          obtain ⟨name, entry⟩ := source
          simp only [Prod.mk.sizeOf_spec]
          omega
        simp only [Value.object.sizeOf_spec]
        omega
      rw [hvalue] at hsize
      exact lt_irrefl _ hsize
  | @travel lower upper _ =>
      have hnames : inner.names = ["max", "min"] := by
        rw [Value.object.injEq] at hvalue
        rw [hvalue]
        rfl
      have hmem : "axes" ∈ (adaptAxes inner).names := (Fields.mem_names_iff _ _).mpr ⟨_, hself⟩
      rw [mem_names_adaptAxes, hnames] at hmem
      revert hmem
      decide

/-- **Adapting twice is adapting once** exactly when the record does not read as a profile
with axes of their own. -/
theorem boundsRecord_boundsRecord_iff (profile : Value) :
    boundsRecord (boundsRecord profile) = boundsRecord profile ↔
      ¬ HoldsAxes (boundsRecord profile) := by
  cases haxes : axes? profile with
  | none =>
      have hnull : boundsRecord profile = .null := by
        rw [boundsRecord, haxes]
        rfl
      rw [hnull]
      refine iff_of_true rfl ?_
      rintro ⟨inner, hinner⟩
      cases hinner
  | some axes =>
      have hobject : boundsRecord profile = .object (adaptAxes axes) := by
        rw [boundsRecord, haxes]
        rfl
      rw [hobject]
      constructor
      · rintro hstable ⟨inner, hinner⟩
        have hinner' : axes? (.object (adaptAxes axes)) = some inner :=
          (axes?_eq_some_iff _ _).mpr (.nested hinner)
        have hsecond : adaptAxes inner = adaptAxes axes := by
          rw [boundsRecord, hinner'] at hstable
          exact Value.object.inj hstable
        refine get?_adaptAxes_ne_self inner ?_
        rw [hsecond]
        exact hinner
      · intro hbare
        rw [boundsRecord_of_not_holdsAxes hbare, (adapted_adaptAxes axes).adaptAxes_eq]

/-- A profile whose only axis is called `AXES` and has an entry without limits: the first
record is kept under that name, and the second is empty. -/
example : ∃ record, boundsRecord (.object [("AXES", .object [])]) = .object record ∧
    record ≠ [] ∧ boundsRecord (.object record) = .object [] :=
  ⟨[("axes", .object [])], rfl, List.cons_ne_nil _ _, rfl⟩

/-- **An adapted record in place of its profile.**  As long as the record holds no object
under `axes`, adapting it once more gives the record itself, and the snapshot of any plan and
any fallback is that of the profile; the same holds for a profile of the host and the bounds
that the host was given for it. -/
theorem boundsRecord_again {profile : Value} (h : ¬ HoldsAxes (boundsRecord profile)) :
    boundsRecord (boundsRecord profile) = boundsRecord profile ∧
      (∀ payload fallback : Value,
        Snapshot.ofRecords payload (boundsRecord profile) fallback =
          Snapshot.ofRecords payload profile fallback) ∧
      ∀ given : HostValue, given.toRecord = profile → ∀ payload fallback : HostValue,
        Host.previewSnapshot payload (Host.machineBounds given) fallback =
          Host.previewSnapshot payload given fallback := by
  have hagain := (boundsRecord_boundsRecord_iff profile).mpr h
  have hbounds : bounds (boundsRecord profile) = bounds profile := by
    rw [bounds, hagain, bounds]
  have hsnapshot : ∀ (plan : Plan) (fallback : TravelSpan),
      Snapshot.compute plan (boundsRecord profile) fallback =
        Snapshot.compute plan profile fallback := by
    intro plan fallback
    simp only [Snapshot.compute, hbounds]
  refine ⟨hagain, fun payload fallback => hsnapshot _ _, ?_⟩
  rintro given rfl payload fallback
  rw [Host.previewSnapshot, Host.toRecord_machineBounds, hsnapshot, Host.previewSnapshot]

/-- A profile from the host with an axis called `AXES` that holds a number, a capital `X` with
both travel limits and a small `y` with one of them. -/
def strangeAxes : HostValue :=
  .object [("axes", .object [
    ("AXES", .number 5.0),
    ("X", .object [("travel_min_mm", .number 0.0), ("travel_max_mm", .number 9.0)]),
    ("y", .object [("min", .number 1.0), ("max", .number 4.0), ("travel_max_mm", .number 8.0)])])]

/-- The record of strange axes has a field `axes` that is no object, so it can be given in
place of the profile. -/
theorem boundsRecord_again_strangeAxes :
    ¬ HoldsAxes (boundsRecord strangeAxes.toRecord) ∧
      boundsRecord (boundsRecord strangeAxes.toRecord) = boundsRecord strangeAxes.toRecord ∧
      Snapshot.ofRecords .null (boundsRecord strangeAxes.toRecord) .null =
        Snapshot.ofRecords .null strangeAxes.toRecord .null ∧
      Host.previewSnapshot .null (Host.machineBounds strangeAxes) .undefined =
        Host.previewSnapshot .null strangeAxes .undefined := by
  have hfield : (boundsRecord strangeAxes.toRecord).field? "axes" =
      some (.number (.double 5.0 rfl)) := rfl
  have hholds : ¬ HoldsAxes (boundsRecord strangeAxes.toRecord) := by
    rintro ⟨inner, hinner⟩
    rw [hfield] at hinner
    cases hinner
  obtain ⟨hagain, hrecords, hhost⟩ := boundsRecord_again hholds
  exact ⟨hholds, hagain, hrecords .null .null, hhost strangeAxes rfl .null .undefined⟩

end YarnPreview.Machine
