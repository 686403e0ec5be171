import Mathlib
import YarnPreview.Proofs.Comparison.Containment

/-!
# Fitting is an order

If a plan fits a machine and everything that the machine can do fits a second one, the
plan fits the second one too.  This module shows that fitting is an order on bounds
records: transitive, reflexive where a record is complete, and antisymmetric up to the
numbers that the limits are.

## Main definitions

* `Bounds.SameLimits` — bounds that are numerically equal
* `BoundsSet.Inside` — on an axis, one record's interval lies inside another's
* `Comparison.Exchanges` — one comparison is another with the two sides exchanged

## Main statements

* `BoundsSet.Inside.trans`, `BoundsSet.inside_self_iff`, `BoundsSet.inside_and_inside_iff` —
  the laws of one axis
* `Comparison.fits_ofRecords_iff`, `Comparison.mem_exceedingAxes_iff_not_inside` — the
  comparison, by those of its axes
* `Comparison.fits_order_laws` — the laws of fitting

## Why records and not bounds sets

A bounds set may hold anything, and a NaN overruns nothing and is overrun by nothing.  Every
complete set fits one of NaNs, and that one fits every complete set, so between raw sets
fitting is not transitive.  The laws are about records, because what a record resolves to is
finite and in order; then they are the laws of containment.
-/

namespace YarnPreview

namespace Bounds

/-- **Numerically equal bounds**: both limits are the same numbers.  A zero may still differ
in its sign. -/
def SameLimits (b other : Bounds) : Prop :=
  exactValue b.min = exactValue other.min ∧ exactValue b.max = exactValue other.max

/-- Two intervals, neither of them empty, lie inside each other exactly when their limits are
the same. -/
theorem subset_and_subset_iff_sameLimits {b other : Bounds}
    (hb : exactValue b.min ≤ exactValue b.max)
    (hother : exactValue other.min ≤ exactValue other.max) :
    b.interval ⊆ other.interval ∧ other.interval ⊆ b.interval ↔ b.SameLimits other := by
  rw [interval_subset_iff hb, interval_subset_iff hother, SameLimits]
  constructor
  · rintro ⟨⟨hmin, hmax⟩, hmin', hmax'⟩
    exact ⟨le_antisymm hmin' hmin, le_antisymm hmax hmax'⟩
  · rintro ⟨hmin, hmax⟩
    exact ⟨⟨hmin.ge, hmax.le⟩, hmin.le, hmax.ge⟩

end Bounds

namespace BoundsSet

/-! ### One axis -/

/-- A record resolves to one bounds on an axis at most. -/
theorem Resolves.unique {record : Value} {axis : Axis} {b other : Bounds}
    (hb : Resolves record axis b) (hother : Resolves record axis other) : b = other := by
  rw [← get?_ofRecord_eq_some_iff] at hb hother
  exact Option.some.inj (hb.symm.trans hother)

/-- What a record resolves to is in order. -/
theorem Resolves.ordered {record : Value} {axis : Axis} {b : Bounds}
    (h : Resolves record axis b) : exactValue b.min ≤ exactValue b.max := by
  obtain ⟨entry, hentry⟩ := h.describes
  exact hentry.ordered

/-- **Inside, on an axis**: both records resolve, and the interval of the first lies inside
that of the second. -/
def Inside (inner outer : Value) (axis : Axis) : Prop :=
  ∃ b other, Resolves inner axis b ∧ Resolves outer axis other ∧ b.interval ⊆ other.interval

variable {first second third : Value} {axis : Axis}

/-- Of two records that resolve, the intervals decide. -/
theorem inside_iff_subset {b other : Bounds} (hb : Resolves first axis b)
    (hother : Resolves second axis other) :
    Inside first second axis ↔ b.interval ⊆ other.interval := by
  constructor
  · rintro ⟨b', other', hb', hother', hsubset⟩
    rwa [hb.unique hb', hother.unique hother']
  · intro hsubset
    exact ⟨b, other, hb, hother, hsubset⟩

/-- **What is inside is inside all that is around**: the middle record has one interval. -/
theorem Inside.trans (h : Inside first second axis) (h' : Inside second third axis) :
    Inside first third axis := by
  obtain ⟨b, middle, hb, hmiddle, hsubset⟩ := h
  obtain ⟨middle', other, hmiddle', hother, hsubset'⟩ := h'
  rw [← hmiddle.unique hmiddle'] at hsubset'
  exact ⟨b, other, hb, hother, hsubset.trans hsubset'⟩

/-- A record is inside itself where it resolves. -/
theorem inside_self_iff : Inside first first axis ↔ ∃ b, Resolves first axis b := by
  constructor
  · rintro ⟨b, -, hb, -⟩
    exact ⟨b, hb⟩
  · rintro ⟨b, hb⟩
    exact ⟨b, b, hb, hb, subset_rfl⟩

/-- **Inside each other** are the records that resolve to the same limits. -/
theorem inside_and_inside_iff :
    Inside first second axis ∧ Inside second first axis ↔
      ∃ b other, Resolves first axis b ∧ Resolves second axis other ∧ b.SameLimits other := by
  constructor
  · rintro ⟨⟨b, other, hb, hother, hsubset⟩, h'⟩
    have hsubset' := (inside_iff_subset hother hb).mp h'
    exact ⟨b, other, hb, hother,
      (Bounds.subset_and_subset_iff_sameLimits hb.ordered hother.ordered).mp ⟨hsubset, hsubset'⟩⟩
  · rintro ⟨b, other, hb, hother, hsame⟩
    obtain ⟨hsubset, hsubset'⟩ :=
      (Bounds.subset_and_subset_iff_sameLimits hb.ordered hother.ordered).mpr hsame
    exact ⟨⟨b, other, hb, hother, hsubset⟩, other, b, hother, hb, hsubset'⟩

end BoundsSet

namespace Comparison

open BoundsSet (Inside Resolves)

/-! ### All axes -/

/-- **Fitting is being inside on every axis.** -/
theorem fits_ofRecords_iff (planner machine : Value) :
    (ofRecords planner machine).fits = true ↔ ∀ axis, Inside planner machine axis := by
  rw [ofRecords, fits_ofSets_iff]
  apply forall_congr'
  intro axis
  simp only [BoundsSet.get?_ofRecord_eq_some_iff]
  refine exists_congr fun p => exists_congr fun m => and_congr_right fun hp =>
    and_congr_right fun hm => ?_
  rw [← Bool.not_eq_true, exceeds_iff_of_resolves hp hm, not_not]

/-- **Exceeding is not being inside**, on an axis that resolves on both sides. -/
theorem mem_exceedingAxes_iff_not_inside {planner machine : Value} {axis : Axis}
    (hplanner : ∃ p, Resolves planner axis p) (hmachine : ∃ m, Resolves machine axis m) :
    axis ∈ (ofRecords planner machine).exceedingAxes ↔ ¬ Inside planner machine axis := by
  obtain ⟨p, hp⟩ := hplanner
  obtain ⟨m, hm⟩ := hmachine
  have hdetail : (ofRecords planner machine).details.get? axis =
      some (AxisComparison.ofBounds p m) :=
    (get?_details_ofRecords_eq_some_iff planner machine axis _).mpr ⟨p, m, hp, hm, rfl⟩
  have hexceeds : axis ∈ (ofRecords planner machine).exceedingAxes ↔
      (AxisComparison.ofBounds p m).exceeds = true := by
    apply ((lists_exceeding_ofSets _ _).mem_iff axis).trans
    constructor
    · rintro ⟨detail, hget, hdetail'⟩
      cases hdetail.symm.trans hget
      exact hdetail'
    · intro h
      exact ⟨_, hdetail, h⟩
  rw [hexceeds, exceeds_iff_of_resolves hp hm, BoundsSet.inside_iff_subset hp hm]

/-! ### Exchanging the sides -/

/-- **One comparison is another with its sides exchanged**: what the one says of the plan
the other says of the machine. -/
structure Exchanges (c other : Comparison) : Prop where
  missingPlanner : other.missingPlanner = c.missingMachine
  missingMachine : other.missingMachine = c.missingPlanner
  missingPlannerAxes : other.missingPlannerAxes = c.missingMachineAxes
  missingMachineAxes : other.missingMachineAxes = c.missingPlannerAxes
  /-- The same axes have a detail, with the two bounds exchanged. -/
  details : ∀ axis,
    (other.details.get? axis).map (fun detail => (detail.planner, detail.machine)) =
      (c.details.get? axis).map fun detail => (detail.machine, detail.planner)

/-- **Comparing the other way round** exchanges the sides, for raw bounds sets too. -/
theorem exchanges_ofSets (planner machine : BoundsSet) :
    Exchanges (ofSets planner machine) (ofSets machine planner) where
  missingPlanner := rfl
  missingMachine := rfl
  missingPlannerAxes := rfl
  missingMachineAxes := rfl
  details axis := by
    rw [get?_details_ofSets, get?_details_ofSets]
    cases planner.get? axis with
    | none => cases machine.get? axis <;> rfl
    | some p => cases machine.get? axis <;> rfl

/-! ### The laws -/

/-- **Fitting is an order on bounds records.**  It is transitive; a record fits itself exactly
when all of its axes resolve; and two records fit each other exactly when they resolve to
numerically equal bounds.  An axis on which the first record exceeds the third is one on which
the first exceeds the second or the second the third.  Exchanging the sides exchanges what is
reported of them. -/
theorem fits_order_laws (a b c : Value) :
    ((ofRecords a b).fits = true → (ofRecords b c).fits = true →
      (ofRecords a c).fits = true) ∧
    ((ofRecords a a).fits = true ↔ ∀ axis, ∃ p, Resolves a axis p) ∧
    ((ofRecords a b).fits = true ∧ (ofRecords b a).fits = true ↔
      ∀ axis, ∃ p q, Resolves a axis p ∧ Resolves b axis q ∧ p.SameLimits q) ∧
    (∀ axis, (∃ p, Resolves a axis p) → (∃ q, Resolves b axis q) → (∃ r, Resolves c axis r) →
      axis ∈ (ofRecords a c).exceedingAxes →
        axis ∈ (ofRecords a b).exceedingAxes ∨ axis ∈ (ofRecords b c).exceedingAxes) ∧
    Exchanges (ofRecords a b) (ofRecords b a) := by
  refine ⟨?_, ?_, ?_, ?_, exchanges_ofSets _ _⟩
  · simp only [fits_ofRecords_iff]
    intro hab hbc axis
    exact (hab axis).trans (hbc axis)
  · simp only [fits_ofRecords_iff, BoundsSet.inside_self_iff]
  · simp only [fits_ofRecords_iff, ← forall_and, BoundsSet.inside_and_inside_iff]
  · intro axis ha hb hc
    rw [mem_exceedingAxes_iff_not_inside ha hc, mem_exceedingAxes_iff_not_inside ha hb,
      mem_exceedingAxes_iff_not_inside hb hc, ← not_and_or]
    rintro hac ⟨hab, hbc⟩
    exact hac (hab.trans hbc)

/-- Between raw bounds sets a NaN breaks the chain. -/
example :
    let all (b : Bounds) : BoundsSet := ⟨some b, some b, some b, some b⟩
    let unknown : Bounds := ⟨notANumber, notANumber⟩
    (ofSets (all ⟨0.0, 9.0⟩) (all unknown)).fits = true ∧
      (ofSets (all unknown) (all ⟨0.0, 5.0⟩)).fits = true ∧
      (ofSets (all ⟨0.0, 9.0⟩) (all ⟨0.0, 5.0⟩)).fits = false := by decide

/-- The record with the same limits on every axis. -/
def cube (lower upper : Value) : Value :=
  let side : Value := .object [("max", upper), ("min", lower)]
  .object [("e", side), ("x", side), ("y", side), ("z", side)]

/-- Cubes from zero on.  The first one has its lower limit from a text and with a sign, so it
resolves to other doubles than the second and still fits both ways. -/
theorem fits_order_laws_cubes :
    ((ofRecords (cube (.string "-0") (.ofNat 5)) (cube (.ofNat 0) (.ofNat 7))).fits = true ∧
      (ofRecords (cube (.ofNat 0) (.ofNat 7)) (cube (.ofNat 0) (.ofNat 9))).fits = true ∧
      (ofRecords (cube (.string "-0") (.ofNat 5)) (cube (.ofNat 0) (.ofNat 9))).fits = true) ∧
    (BoundsSet.ofRecord (cube (.string "-0") (.ofNat 5)) ≠
        BoundsSet.ofRecord (cube (.ofNat 0) (.ofNat 5)) ∧
      ∃ p q, Resolves (cube (.string "-0") (.ofNat 5)) .x p ∧
        Resolves (cube (.ofNat 0) (.ofNat 5)) .x q ∧ p.SameLimits q) ∧
    (Axis.x ∈ (ofRecords (cube (.ofNat 0) (.ofNat 9)) (cube (.ofNat 0) (.ofNat 5))).exceedingAxes ∧
      (Axis.x ∈ (ofRecords (cube (.ofNat 0) (.ofNat 9))
          (cube (.ofNat 0) (.ofNat 7))).exceedingAxes ∨
        Axis.x ∈ (ofRecords (cube (.ofNat 0) (.ofNat 7))
          (cube (.ofNat 0) (.ofNat 5))).exceedingAxes)) := by
  have hresolves : ∀ {record : Value} {b : Bounds},
      (BoundsSet.ofRecord record).get? .x = some b → ∃ b, Resolves record .x b :=
    fun h => ⟨_, (BoundsSet.get?_ofRecord_eq_some_iff _ _ _).mp h⟩
  have h5 : (BoundsSet.ofRecord (cube (.ofNat 0) (.ofNat 5))).get? .x = some ⟨0.0, 5.0⟩ := by
    decide +kernel
  have h7 : (BoundsSet.ofRecord (cube (.ofNat 0) (.ofNat 7))).get? .x = some ⟨0.0, 7.0⟩ := by
    decide +kernel
  have h9 : (BoundsSet.ofRecord (cube (.ofNat 0) (.ofNat 9))).get? .x = some ⟨0.0, 9.0⟩ := by
    decide +kernel
  have hsmall : (ofRecords (cube (.string "-0") (.ofNat 5))
      (cube (.ofNat 0) (.ofNat 7))).fits = true := by decide +kernel
  have hlarge : (ofRecords (cube (.ofNat 0) (.ofNat 7))
      (cube (.ofNat 0) (.ofNat 9))).fits = true := by decide +kernel
  have hexceeds : Axis.x ∈ (ofRecords (cube (.ofNat 0) (.ofNat 9))
      (cube (.ofNat 0) (.ofNat 5))).exceedingAxes := by decide +kernel
  refine ⟨⟨hsmall, hlarge, ?_⟩, ⟨by decide +kernel, ?_⟩, hexceeds, ?_⟩
  · exact (fits_order_laws _ (cube (.ofNat 0) (.ofNat 7)) _).1 hsmall hlarge
  · exact (fits_order_laws _ _ .null).2.2.1.mp ⟨by decide +kernel, by decide +kernel⟩ .x
  · exact (fits_order_laws _ _ _).2.2.2.1 .x (hresolves h9) (hresolves h7) (hresolves h5) hexceeds

end Comparison

end YarnPreview
