import Mathlib
import YarnPreview.Comparison
import YarnPreview.Proofs.Bounds.Resolution

/-!
# Comparison is containment

A plan fits a machine when, on every axis, the interval of the plan lies inside
the interval of the machine.  This module shows that the comparison of two
records says exactly that, whatever the records hold, and that its lists and
flags name the axes and ends responsible.

## Main definitions

* `Bounds.interval` — the numbers between two limits
* `Axis.Lists` — a list of axes that reports a property
* `Comparison.Reports` — the meaning of a comparison

## Main statements

* `Comparison.fits_ofSets_iff`, `Comparison.lists_exceeding_ofSets` — the lists and
  the flag of a comparison of two bounds sets, raw ones included
* `Comparison.reports_ofRecords` — a comparison of records means containment

## Design notes

Between raw bounds, which may be inverted or hold a NaN, "exceeds" is not the
failure of containment: an inverted interval is empty and contained everywhere.
The lemmas on bounds sets therefore stay with `AxisComparison.exceeds`.  Bounds
that a record resolves to are finite and in order, and for those the two agree.
-/

namespace YarnPreview

namespace Bounds

/-- **The numbers between the limits**, the limits included. -/
def interval (b : Bounds) : Set ℚ :=
  Set.Icc (exactValue b.min) (exactValue b.max)

/-- Containment of intervals, by their ends; the inner one must not be empty. -/
theorem interval_subset_iff {inner outer : Bounds}
    (h : exactValue inner.min ≤ exactValue inner.max) :
    inner.interval ⊆ outer.interval ↔
      exactValue outer.min ≤ exactValue inner.min ∧
        exactValue inner.max ≤ exactValue outer.max :=
  Set.Icc_subset_Icc_iff h

end Bounds

namespace AxisComparison

variable {planner machine : Bounds}

/-- The low end overruns when the plan's lower limit is the smaller number. -/
theorem overrunLow_ofBounds (hp : planner.min.isFinite = true)
    (hm : machine.min.isFinite = true) :
    (ofBounds planner machine).overrunLow = true ↔
      exactValue planner.min < exactValue machine.min := by
  rw [← lt_iff_exactValue hp hm]
  exact decide_eq_true_iff

/-- The high end overruns when the plan's upper limit is the larger number. -/
theorem overrunHigh_ofBounds (hp : planner.max.isFinite = true)
    (hm : machine.max.isFinite = true) :
    (ofBounds planner machine).overrunHigh = true ↔
      exactValue machine.max < exactValue planner.max := by
  rw [← lt_iff_exactValue hm hp]
  exact decide_eq_true_iff

/-- **Between described bounds, exceeding is the failure of containment.** -/
theorem exceeds_ofBounds_iff {entry entry' : Value} (hp : Bounds.Describes entry planner)
    (hm : Bounds.Describes entry' machine) :
    (ofBounds planner machine).exceeds = true ↔ ¬ planner.interval ⊆ machine.interval := by
  rw [exceeds, Bool.or_eq_true, overrunLow_ofBounds hp.finite_min hm.finite_min,
    overrunHigh_ofBounds hp.finite_max hm.finite_max, Bounds.interval_subset_iff hp.ordered,
    not_and_or, not_le, not_le]

end AxisComparison

/-! ### Lists of axes -/

/-- **A list of axes reports a property**: it names the axes that have it, in
reporting order and each of them once. -/
structure Axis.Lists (axes : List Axis) (property : Axis → Prop) : Prop where
  sublist : axes.Sublist Axis.all
  mem_iff : ∀ axis, axis ∈ axes ↔ property axis

/-- What is filtered out of all axes reports the test. -/
theorem Axis.lists_filter {property : Axis → Prop} (test : Axis → Bool)
    (h : ∀ axis, test axis = true ↔ property axis) :
    Axis.Lists (Axis.all.filter test) property where
  sublist := List.filter_sublist
  mem_iff axis := by rw [List.mem_filter, h, and_iff_right (Axis.mem_all axis)]

/-- Axes that report a property report every equivalent one. -/
theorem Axis.Lists.congr {axes : List Axis} {property property' : Axis → Prop}
    (h : Axis.Lists axes property) (hiff : ∀ axis, property axis ↔ property' axis) :
    Axis.Lists axes property' :=
  ⟨h.sublist, fun axis => (h.mem_iff axis).trans (hiff axis)⟩

/-- A list that reports nothing is empty. -/
theorem Axis.Lists.isEmpty_iff {axes : List Axis} {property : Axis → Prop}
    (h : Axis.Lists axes property) : axes.isEmpty = true ↔ ∀ axis, ¬ property axis := by
  simp only [List.isEmpty_iff, List.eq_nil_iff_forall_not_mem, h.mem_iff]

namespace Comparison

/-! ### Comparing two bounds sets -/

section Sets

variable (planner machine : BoundsSet)

/-- The axes of a detail are those known on both sides. -/
theorem get?_details_ofSets (axis : Axis) :
    (ofSets planner machine).details.get? axis =
      (planner.get? axis).bind fun p =>
        (machine.get? axis).map (AxisComparison.ofBounds p) :=
  AxisMap.get?_zipWith _ _ _ _

/-- The missing axes of a bounds set, as a report. -/
theorem lists_missing (set : BoundsSet) :
    Axis.Lists set.missing fun axis => set.get? axis = none :=
  Axis.lists_filter _ fun _ => Option.isNone_iff_eq_none

/-- The exceeding axes are those whose detail exceeds. -/
theorem lists_exceeding_ofSets :
    Axis.Lists (ofSets planner machine).exceedingAxes fun axis =>
      ∃ detail, (ofSets planner machine).details.get? axis = some detail ∧
        detail.exceeds = true :=
  Axis.lists_filter _ fun _ => Option.any_eq_true _ _

/-- **A plan fits** exactly when every axis is known on both sides and exceeds on
none. -/
theorem fits_ofSets_iff :
    (ofSets planner machine).fits = true ↔
      ∀ axis, ∃ p m, planner.get? axis = some p ∧ machine.get? axis = some m ∧
        (AxisComparison.ofBounds p m).exceeds = false := by
  have hfits : (ofSets planner machine).fits = true ↔
      (∀ axis, planner.get? axis ≠ none) ∧ (∀ axis, machine.get? axis ≠ none) ∧
        ∀ axis, ¬ ∃ detail, (ofSets planner machine).details.get? axis = some detail ∧
          detail.exceeds = true := by
    rw [← (lists_missing planner).isEmpty_iff, ← (lists_missing machine).isEmpty_iff,
      ← (lists_exceeding_ofSets planner machine).isEmpty_iff, ← and_assoc, ← Bool.and_eq_true,
      ← Bool.and_eq_true]
    rfl
  rw [hfits]
  constructor
  · rintro ⟨hplanner, hmachine, hexceeding⟩ axis
    obtain ⟨p, hp⟩ := Option.ne_none_iff_exists'.mp (hplanner axis)
    obtain ⟨m, hm⟩ := Option.ne_none_iff_exists'.mp (hmachine axis)
    have hdetail : (ofSets planner machine).details.get? axis =
        some (AxisComparison.ofBounds p m) := by
      rw [get?_details_ofSets, hp, hm]
      rfl
    refine ⟨p, m, hp, hm, Bool.eq_false_iff.mpr ?_⟩
    intro hexceeds
    exact hexceeding axis ⟨_, hdetail, hexceeds⟩
  · intro h
    refine ⟨?_, ?_, ?_⟩
    · intro axis
      obtain ⟨p, m, hp, -⟩ := h axis
      simp [hp]
    · intro axis
      obtain ⟨p, m, -, hm, -⟩ := h axis
      simp [hm]
    · rintro axis ⟨detail, hdetail, hexceeds⟩
      obtain ⟨p, m, hp, hm, hinside⟩ := h axis
      rw [get?_details_ofSets, hp, hm] at hdetail
      cases hdetail
      rw [hinside] at hexceeds
      cases hexceeds

end Sets

/-! ### Comparing two records -/

/-- **What a comparison of two records means.** -/
structure Reports (planner machine : Value) (c : Comparison) : Prop where
  /-- The plan fits when every axis resolves on both sides and the plan's interval
  lies inside the machine's. -/
  fits_iff : c.fits = true ↔ ∀ axis, ∃ p m, BoundsSet.Resolves planner axis p ∧
    BoundsSet.Resolves machine axis m ∧ p.interval ⊆ m.interval
  /-- There is a detail for the axes that resolve on both sides, and no other … -/
  isSome_detail : ∀ axis, (c.details.get? axis).isSome = true ↔
    (∃ p, BoundsSet.Resolves planner axis p) ∧ ∃ m, BoundsSet.Resolves machine axis m
  /-- … it holds the two bounds and names the ends that stick out. -/
  detail_iff : ∀ axis detail, c.details.get? axis = some detail ↔
    BoundsSet.Resolves planner axis detail.planner ∧
      BoundsSet.Resolves machine axis detail.machine ∧
      (detail.overrunLow = true ↔
        exactValue detail.planner.min < exactValue detail.machine.min) ∧
      (detail.overrunHigh = true ↔
        exactValue detail.machine.max < exactValue detail.planner.max)
  /-- The missing axes of either side are those that do not resolve there. -/
  missing_planner : Axis.Lists c.missingPlannerAxes fun axis =>
    ∀ b, ¬ BoundsSet.Resolves planner axis b
  missing_machine : Axis.Lists c.missingMachineAxes fun axis =>
    ∀ b, ¬ BoundsSet.Resolves machine axis b
  /-- The flags tell whether any axis is missing. -/
  missingPlanner_iff : c.missingPlanner = true ↔ c.missingPlannerAxes ≠ []
  missingMachine_iff : c.missingMachine = true ↔ c.missingMachineAxes ≠ []
  /-- The exceeding axes are those with a detail whose plan's interval is not inside
  the machine's. -/
  exceeding : Axis.Lists c.exceedingAxes fun axis => ∃ detail,
    c.details.get? axis = some detail ∧ ¬ detail.planner.interval ⊆ detail.machine.interval

/-- A detail between two records is the comparison of two bounds that they resolve
to. -/
theorem get?_details_ofRecords_eq_some_iff (planner machine : Value) (axis : Axis)
    (detail : AxisComparison) :
    (ofRecords planner machine).details.get? axis = some detail ↔
      ∃ p m, BoundsSet.Resolves planner axis p ∧ BoundsSet.Resolves machine axis m ∧
        AxisComparison.ofBounds p m = detail := by
  rw [ofRecords, get?_details_ofSets, Option.bind_eq_some_iff]
  simp only [Option.map_eq_some_iff, BoundsSet.get?_ofRecord_eq_some_iff]
  constructor
  · rintro ⟨p, hp, m, hm, h⟩
    exact ⟨p, m, hp, hm, h⟩
  · rintro ⟨p, m, hp, hm, h⟩
    exact ⟨p, hp, m, hm, h⟩

/-- Between resolved bounds, exceeding is the failure of containment. -/
theorem exceeds_iff_of_resolves {planner machine : Value} {axis : Axis} {p m : Bounds}
    (hp : BoundsSet.Resolves planner axis p) (hm : BoundsSet.Resolves machine axis m) :
    (AxisComparison.ofBounds p m).exceeds = true ↔ ¬ p.interval ⊆ m.interval := by
  obtain ⟨entry, hp⟩ := hp.describes
  obtain ⟨entry', hm⟩ := hm.describes
  exact AxisComparison.exceeds_ofBounds_iff hp hm

/-- **The comparison of two records means containment**, for whatever the records
hold: aliases, malformed numbers, missing axes and equal limits included. -/
theorem reports_ofRecords (planner machine : Value) :
    Reports planner machine (ofRecords planner machine) where
  fits_iff := by
    rw [ofRecords, fits_ofSets_iff]
    refine forall_congr' fun axis => exists_congr fun p => exists_congr fun m => ?_
    rw [BoundsSet.get?_ofRecord_eq_some_iff, BoundsSet.get?_ofRecord_eq_some_iff]
    refine and_congr_right fun hp => and_congr_right fun hm => ?_
    rw [← Bool.not_eq_true, exceeds_iff_of_resolves hp hm, not_not]
  isSome_detail axis := by
    rw [Option.isSome_iff_exists]
    simp only [get?_details_ofRecords_eq_some_iff]
    constructor
    · rintro ⟨-, p, m, hp, hm, -⟩
      exact ⟨⟨p, hp⟩, m, hm⟩
    · rintro ⟨⟨p, hp⟩, m, hm⟩
      exact ⟨_, p, m, hp, hm, rfl⟩
  detail_iff axis detail := by
    rw [get?_details_ofRecords_eq_some_iff]
    constructor
    · rintro ⟨p, m, hp, hm, rfl⟩
      obtain ⟨entry, hp'⟩ := hp.describes
      obtain ⟨entry', hm'⟩ := hm.describes
      exact ⟨hp, hm, AxisComparison.overrunLow_ofBounds hp'.finite_min hm'.finite_min,
        AxisComparison.overrunHigh_ofBounds hp'.finite_max hm'.finite_max⟩
    · rintro ⟨hp, hm, hlow, hhigh⟩
      refine ⟨detail.planner, detail.machine, hp, hm, ?_⟩
      obtain ⟨entry, hp'⟩ := hp.describes
      obtain ⟨entry', hm'⟩ := hm.describes
      rw [← AxisComparison.overrunLow_ofBounds hp'.finite_min hm'.finite_min] at hlow
      rw [← AxisComparison.overrunHigh_ofBounds hp'.finite_max hm'.finite_max] at hhigh
      -- The bounds agree already; the two flags are settled by what they mean.
      cases detail
      exact congrArg₂ _ (Bool.eq_iff_iff.mpr hlow).symm (Bool.eq_iff_iff.mpr hhigh).symm
  missing_planner := (lists_missing _).congr (BoundsSet.get?_ofRecord_eq_none_iff planner)
  missing_machine := (lists_missing _).congr (BoundsSet.get?_ofRecord_eq_none_iff machine)
  missingPlanner_iff := by simp [ofRecords, ofSets]
  missingMachine_iff := by simp [ofRecords, ofSets]
  exceeding := by
    refine (lists_exceeding_ofSets _ _).congr fun axis => exists_congr fun detail =>
      and_congr_right fun hdetail => ?_
    obtain ⟨p, m, hp, hm, rfl⟩ :=
      (get?_details_ofRecords_eq_some_iff planner machine axis detail).mp hdetail
    exact exceeds_iff_of_resolves hp hm

end Comparison

end YarnPreview
