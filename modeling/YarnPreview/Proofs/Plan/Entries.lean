import Mathlib
import YarnPreview.Proofs.Plan.Units

/-!
# The bounds of a plan, entry by entry

A plan keeps the bounds record of its payload with suffixed names resolved, and the bounds on
an axis are then searched in that record.  Two rules follow each other here.  Resolving a name
asks whether it is *there*: a name without unit hides the one with it, whatever it holds.
Searching an axis asks whether an entry is *usable*: what describes no bounds is passed over.
This module says which entry of the payload answers for a name, and from it which bounds a
plan has.

## Main definitions

* `Plan.StandsFor` — the entry of the payload that answers for a name
* `Plan.GivesBounds` — that entry describes bounds
* `Plan.KeepsBounds` — a plan holds the bounds that it was given

## Main statements

* `Plan.get?_resolveUnits_eq_some_iff` — the resolved record holds the entries that answer
* `Plan.givesBounds_iff_of_present` — a name that is there hides its twin with a unit
* `Plan.keepsBounds_ofRecord` — the plan of every payload

## What the names do not do to each other

Every name is resolved from the record as it came.  So `x_mm_mm` answers for `x_mm` when that
is absent and never, through it, for `x`; and since an entry is only ever added under a name
that was absent, none is overwritten.
-/

namespace YarnPreview.Plan

/-- **The entry that answers for a name**: the one under that name, present even as null, and
when there is none, the one under the name with its unit. -/
inductive StandsFor (given : Fields Value) (name : String) (entry : Value) : Prop
  | plain (hentry : given.get? name = some entry)
  | unit (habsent : name ∉ given.names) (hentry : given.get? (name ++ "_mm") = some entry)

/-- The entry that answers for a name describes bounds. -/
def GivesBounds (given : Fields Value) (name : String) (b : Bounds) : Prop :=
  ∃ entry, StandsFor given name entry ∧ Bounds.Describes entry b

/-- **A plan holds the bounds that it was given.** -/
structure KeepsBounds (given : Fields Value) (plan : Plan) : Prop where
  /-- Its record has under each name the entry that answers for it, and no other names. -/
  record : ∃ record : Fields Value, plan.bounds = .object record ∧ record.Ascending ∧
    ∀ name entry, record.get? name = some entry ↔ StandsFor given name entry
  /-- Nothing that was given is lost or overwritten. -/
  kept : ∀ name entry, given.get? name = some entry → plan.bounds.field? name = some entry
  /-- The bounds on an axis are those that its name gives: `x`, `y` or `z`, and for the
  extrusion axis `e`, or `extrusion` where `e` gives none. -/
  bounds : ∀ axis b, plan.boundsSet.get? axis = some b ↔ GivenOnAxis (GivesBounds given) axis b
  /-- A name that is there gives what its own entry describes, be that nothing. -/
  hides : ∀ name entry, given.get? name = some entry →
    ∀ b, GivesBounds given name b ↔ Bounds.Describes entry b
  /-- The plan starts from the lower limit of its extrusion bounds. -/
  baseline : ∀ x, plan.baseline? = some x ↔
    ∃ b, GivenOnAxis (GivesBounds given) .e b ∧ b.min = x

/-! ### The resolved record -/

/-- **The resolved record holds the entries that answer.** -/
theorem get?_resolveUnits_eq_some_iff {given : Fields Value} (hnodup : given.names.Nodup)
    (name : String) (entry : Value) :
    (resolveUnits given).get? name = some entry ↔ StandsFor given name entry := by
  rw [get?_resolveUnits hnodup, Option.or_eq_some_iff, Fields.get?_eq_none_iff]
  constructor
  · rintro (hentry | ⟨habsent, hentry⟩)
    · exact .plain hentry
    · exact .unit habsent hentry
  · rintro (hentry | ⟨habsent, hentry⟩)
    · exact .inl hentry
    · exact .inr ⟨habsent, hentry⟩

/-- Filing a field keeps the record in order. -/
theorem ascending_fileWithoutUnit {record : Fields Value} (h : record.Ascending)
    (given : Fields Value) (name : String) (entry : Value) :
    (fileWithoutUnit given record name entry).Ascending := by
  unfold fileWithoutUnit
  split
  · split
    · exact Fields.ascending_insert h _ _
    · exact h
  · exact h

/-- The resolved record is in order. -/
theorem ascending_resolveUnits {given : Fields Value} (h : given.Ascending) :
    (resolveUnits given).Ascending := by
  unfold resolveUnits
  refine List.foldlRecOn given _ h ?_
  intro record hrecord field _
  exact ascending_fileWithoutUnit hrecord given field.1 field.2

/-! ### Bounds -/

/-- **A name that is there hides its twin with a unit**: it gives what its own entry
describes. -/
theorem givesBounds_iff_of_present {given : Fields Value} {name : String} {entry : Value}
    (h : given.get? name = some entry) (b : Bounds) :
    GivesBounds given name b ↔ Bounds.Describes entry b := by
  constructor
  · rintro ⟨other, hother | ⟨habsent, -⟩, hdescribes⟩
    · rw [hother] at h
      rwa [Option.some.inj h] at hdescribes
    · exact absurd ((Fields.mem_names_iff _ _).mpr ⟨entry, h⟩) habsent
  · intro hdescribes
    exact ⟨entry, .plain h, hdescribes⟩

/-- **The bounds of a resolved record** on an axis come from the first of the axis's names
that gives any. -/
theorem resolves_resolveUnits_iff {given : Fields Value} (hnodup : given.names.Nodup)
    (axis : Axis) (b : Bounds) :
    BoundsSet.Resolves (.object (resolveUnits given)) axis b ↔
      GivenOnAxis (GivesBounds given) axis b := by
  simp only [BoundsSet.Resolves, Value.object.injEq, exists_eq_left',
    get?_resolveUnits_eq_some_iff hnodup]
  exact Iff.rfl

/-- A plan of a payload has the bounds of its field `bounds`, resolved if that is an
object. -/
theorem bounds_ofRecord_of_object {payload : Value} {given : Fields Value}
    (h : payload.field? "bounds" = some (.object given)) :
    (ofRecord payload).bounds = .object (resolveUnits given) := by
  simp [ofRecord, resolveBounds, h, Value.fields?]

/-- Without an object for bounds a plan has none on any axis. -/
theorem get?_boundsSet_ofRecord_of_not_object {payload : Value}
    (h : ∀ given, payload.field? "bounds" ≠ some (.object given)) (axis : Axis) :
    (ofRecord payload).boundsSet.get? axis = none := by
  have hnone : ((payload.field? "bounds").getD .null).fields? = none := by
    rw [Option.eq_none_iff_forall_ne_some]
    intro given hgiven
    have hobject := Value.fields?_eq_some_iff.mp hgiven
    cases hbounds : payload.field? "bounds" with
    | none => simp [hbounds] at hobject
    | some bounds =>
        rw [hbounds, Option.getD_some] at hobject
        exact h given (hbounds.trans (congrArg some hobject))
  simp [boundsSet, ofRecord, resolveBounds, hnone]

/-- **The plan of a payload holds the bounds that the payload gives**, and none on any axis
when they are no object. -/
theorem keepsBounds_ofRecord {payload : Value} (h : payload.Ordered) :
    (∀ given : Fields Value, payload.field? "bounds" = some (.object given) →
        KeepsBounds given (ofRecord payload)) ∧
      ((∀ given, payload.field? "bounds" ≠ some (.object given)) →
        (∀ axis, (ofRecord payload).boundsSet.get? axis = none) ∧
          (ofRecord payload).baseline? = none) := by
  constructor
  · intro given hgiven
    have hascending : given.Ascending := (h.field? hgiven).ascending
    have hbounds := bounds_ofRecord_of_object hgiven
    have hentry := get?_resolveUnits_eq_some_iff hascending.nodup
    have hset : ∀ axis b, (ofRecord payload).boundsSet.get? axis = some b ↔
        GivenOnAxis (GivesBounds given) axis b := by
      intro axis b
      rw [boundsSet, hbounds, BoundsSet.get?_ofRecord_eq_some_iff,
        resolves_resolveUnits_iff hascending.nodup]
    refine ⟨⟨_, hbounds, ascending_resolveUnits hascending, hentry⟩, ?_, hset, ?_, ?_⟩
    · intro name entry hname
      rw [hbounds, Value.field?_object]
      exact (hentry name entry).mpr (.plain hname)
    · intro name entry hname b
      exact givesBounds_iff_of_present hname b
    · intro x
      simp only [baseline?, Option.map_eq_some_iff, hset]
  · intro hnone
    have habsent := get?_boundsSet_ofRecord_of_not_object hnone
    refine ⟨habsent, ?_⟩
    rw [baseline?, habsent, Option.map_none]

/-- A payload whose names hide one another: a null `x` beside a usable `x_mm`, a `y` that is
only there with its unit written twice, and an unusable `e` beside `e_mm` and
`extrusion_mm`. -/
def hiddenTwins : HostValue :=
  .object [("bounds", .object [
    ("x", .null),
    ("x_mm", .object [("min", .number 0.0), ("max", .number 9.0)]),
    ("y_mm_mm", .object [("min", .number 0.0), ("max", .number 9.0)]),
    ("e", .object [("min", .number 5.0), ("max", .number 1.0)]),
    ("e_mm", .object [("min", .number 0.0), ("max", .number 9.0)]),
    ("extrusion_mm", .object [("min", .number 0.5), ("max", .number 2.0)])])]

/-- A payload with bounds on every axis, those of the extrusion axis under both of its names,
the first of them with its unit. -/
def everyAxis : HostValue :=
  .object [("bounds", .object [
    ("x", .object [("min", .number 1.0), ("max", .number 9.0)]),
    ("y_mm", .object [("min", .number 2.0), ("max", .number 8.0)]),
    ("z", .object [("low", .number 3.0), ("high", .number 7.0)]),
    ("e_mm", .object [("min", .number 1.5), ("max", .number 4.0)]),
    ("extrusion", .object [("min", .number 0.0), ("max", .number 9.0)])])]

/-- Of the hidden twins the plan has bounds on the extrusion axis alone, by its second name,
and it starts from their lower limit.  Where both names give bounds, the first one decides. -/
theorem keepsBounds_ofRecord_hiddenTwins :
    (hiddenTwins.toRecord.Ordered ∧
      ∃ given, hiddenTwins.toRecord.field? "bounds" = some (.object given) ∧
        (∀ b, ¬ GivenOnAxis (GivesBounds given) .x b) ∧
        (∀ b, ¬ GivenOnAxis (GivesBounds given) .y b) ∧
        GivenOnAxis (GivesBounds given) .e ⟨0.5, 2.0⟩ ∧
        (ofRecord hiddenTwins.toRecord).baseline? = some 0.5) ∧
    everyAxis.toRecord.Ordered ∧
      ∃ given, everyAxis.toRecord.field? "bounds" = some (.object given) ∧
        (ofRecord everyAxis.toRecord).boundsSet =
          ⟨some ⟨1.0, 9.0⟩, some ⟨2.0, 8.0⟩, some ⟨3.0, 7.0⟩, some ⟨1.5, 4.0⟩⟩ ∧
        GivenOnAxis (GivesBounds given) .e ⟨1.5, 4.0⟩ ∧
        (ofRecord everyAxis.toRecord).baseline? = some 1.5 := by
  constructor
  · have hordered : hiddenTwins.toRecord.Ordered := hiddenTwins.ordered_toRecord
    obtain ⟨hobject, -⟩ := keepsBounds_ofRecord hordered
    obtain ⟨given, hgiven⟩ :
        ∃ given, hiddenTwins.toRecord.field? "bounds" = some (.object given) := ⟨_, rfl⟩
    have hkeeps := hobject given hgiven
    have hset : (ofRecord hiddenTwins.toRecord).boundsSet =
        ⟨none, none, none, some ⟨0.5, 2.0⟩⟩ := by decide +kernel
    have he := (hkeeps.bounds .e ⟨0.5, 2.0⟩).mp (by rw [hset]; rfl)
    refine ⟨hordered, given, hgiven, ?_, ?_, he, (hkeeps.baseline _).mpr ⟨_, he, rfl⟩⟩
    · intro b hb
      rw [← hkeeps.bounds, hset] at hb
      cases hb
    · intro b hb
      rw [← hkeeps.bounds, hset] at hb
      cases hb
  · have hordered : everyAxis.toRecord.Ordered := everyAxis.ordered_toRecord
    obtain ⟨hobject, -⟩ := keepsBounds_ofRecord hordered
    obtain ⟨given, hgiven⟩ :
        ∃ given, everyAxis.toRecord.field? "bounds" = some (.object given) := ⟨_, rfl⟩
    have hkeeps := hobject given hgiven
    have hset : (ofRecord everyAxis.toRecord).boundsSet =
        ⟨some ⟨1.0, 9.0⟩, some ⟨2.0, 8.0⟩, some ⟨3.0, 7.0⟩, some ⟨1.5, 4.0⟩⟩ := by decide +kernel
    have he := (hkeeps.bounds .e ⟨1.5, 4.0⟩).mp (by rw [hset]; rfl)
    exact ⟨hordered, given, hgiven, hset, he, (hkeeps.baseline _).mpr ⟨_, he, rfl⟩⟩

end YarnPreview.Plan
