import Mathlib
import YarnPreview.Proofs.Feed.Detection
import YarnPreview.Proofs.Feed.Queries

/-!
# The ways to come by pulses

Pulses are meant to ascend strictly, and every question about them is answered by
bisection on the strength of that.  They are detected in a plan, there may be none at
all, or they are decoded from a record.  Detection keeps the order; decoding takes the
indices as they stand.

## Main definitions

* `Pulses.Orderly` — pulses that ascend, and whose queries say what they should
* `Pulses.Built` — the three ways to come by pulses

## Main statements

* `settle_eq_succ` — two searches that end side by side part at the later end
* `Pulses.ascending_of_contains` — distinct pulses that are all found do ascend
* `Pulses.decode?_eq_some_iff` — decoding accepts every list of indices, in any order
* `Pulses.orderly_construction` — which pulses are orderly, for each way to build them
* `Pulses.not_orderly_decoded` — a record whose pulses are not

## Design notes

**The order is not only enough for the search, it is needed.**  As long as no pulse
occurs twice, a search that finds every one of them forces the list to ascend, so a
decoded list out of order always hides one of its own pulses.  With repeated pulses this
fails: both pulses of 2, 1, 2, 1, 2 are found.
-/

namespace YarnPreview

/-! ### Where two searches part -/

/-- The bisection ends at its start, or at a position that is `below`. -/
theorem settle_eq_or_below (below : Nat → Bool) (base size : Nat) :
    settle below base size = base ∨ below (settle below base size) = true := by
  fun_induction settle below base size with
  | case1 base size hsmall => exact Or.inl rfl
  | case2 base size hlarge middle ih =>
      by_cases hmiddle : below middle = true
      · simp only [dif_pos hmiddle, if_pos hmiddle] at ih ⊢
        rcases ih with hstart | hbelow
        · rw [hstart]
          exact Or.inr hmiddle
        · exact Or.inr hbelow
      · simp only [dif_neg hmiddle, if_neg hmiddle] at ih ⊢
        exact ih

/-- **Two searches that end side by side part at the later end**: the one that ends
before it has found that position not to be `below`. -/
theorem settle_eq_succ {below below' : Nat → Bool} {position : Nat} (base size : Nat)
    (h : settle below base size = position) (h' : settle below' base size = position + 1) :
    below (position + 1) = false := by
  induction size using Nat.strong_induction_on generalizing base with
  | h size ih =>
      by_cases hsmall : size ≤ 1
      · rw [settle_of_le_one hsmall] at h h'
        omega
      · rw [settle, if_neg hsmall] at h h'
        cases hmiddle : below (base + size / 2) <;> cases hmiddle' : below' (base + size / 2) <;>
          simp only [hmiddle, hmiddle', if_true, Bool.false_eq_true, if_false] at h h'
        · exact ih (size - size / 2) (by omega) base h h'
        · -- The window before the middle ends there at the latest, and the middle itself is
          -- not `below`; so the searches end on either side of the step to the middle.
          have hleft := settle_mem_window below base (size - size / 2)
          have hright := settle_mem_window below' (base + size / 2) (size - size / 2)
          have hne : position ≠ base + size / 2 := by
            rintro rfl
            rcases settle_eq_or_below below base (size - size / 2) with hstart | hbelow
            · omega
            · rw [h, hmiddle] at hbelow
              exact Bool.false_ne_true hbelow
          have hposition : position + 1 = base + size / 2 := by omega
          rw [hposition, hmiddle]
        · have hleft := settle_mem_window below' base (size - size / 2)
          have hright := settle_mem_window below (base + size / 2) (size - size / 2)
          omega
        · exact ih (size - size / 2) (by omega) (base + size / 2) h h'

namespace Pulses

variable {pulses : Pulses}

/-! ### Orderly pulses -/

/-- **Orderly pulses** ascend strictly; the search finds what is among them, and what
remains after a step is the number of later ones. -/
structure Orderly (pulses : Pulses) : Prop where
  ascending : pulses.steps.Pairwise (· < ·)
  contains_iff : ∀ step, pulses.contains step = true ↔ step ∈ pulses.steps
  remainingAfter_eq : ∀ step, pulses.remainingAfter step = pulses.steps.countP (step < ·)

/-- The order alone makes pulses orderly. -/
theorem orderly_iff : pulses.Orderly ↔ pulses.steps.Pairwise (· < ·) := by
  refine ⟨Orderly.ascending, fun hascending => ?_⟩
  have hweak : pulses.steps.Pairwise (· ≤ ·) := hascending.imp Nat.le_of_lt
  refine ⟨hascending, contains_iff_mem hweak, fun step => ?_⟩
  rw [remainingAfter_eq_length hweak, List.countP_eq_length_filter]

/-- Among distinct pulses, a search that finds a pulse ends at its position. -/
theorem nearest_eq_of_contains (hdistinct : pulses.steps.Nodup) {position : Nat}
    (hlt : position < pulses.steps.length)
    (hfound : pulses.contains pulses.steps[position] = true) :
    pulses.nearest pulses.steps[position] = position := by
  rw [contains, beq_iff_eq] at hfound
  obtain ⟨hnearest, hget⟩ := List.getElem?_eq_some_iff.mp hfound
  exact (hdistinct.getElem_inj_iff).mp hget

/-- **Distinct pulses that are all found do ascend.**  The searches for two neighbours end
side by side, so the one for the earlier has seen that the later one is larger. -/
theorem ascending_of_contains (hdistinct : pulses.steps.Nodup)
    (hfound : ∀ step ∈ pulses.steps, pulses.contains step = true) :
    pulses.steps.Pairwise (· < ·) := by
  rw [← List.isChain_iff_pairwise, List.isChain_iff_getElem]
  intro position hlt
  have hhere : pulses.nearest pulses.steps[position] = position :=
    nearest_eq_of_contains hdistinct (by omega) (hfound _ (List.getElem_mem _))
  have hnext : pulses.nearest pulses.steps[position + 1] = position + 1 :=
    nearest_eq_of_contains hdistinct hlt (hfound _ (List.getElem_mem _))
  have hlater := settle_eq_succ 0 pulses.size hhere hnext
  rw [noLater, List.getElem?_eq_getElem hlt, Option.any_some, decide_eq_false_iff_not] at hlater
  exact Nat.lt_of_not_le hlater

/-- Repeated pulses may be out of order and still be found. -/
example : [1, 2].all (Pulses.mk [2, 1, 2, 1, 2]).contains = true := by cbv

end Pulses

/-! ### Decoding -/

/-- A step index is written as a whole number below the limit. -/
theorem Value.index?_eq_some_iff {value : Value} {index : Nat} :
    value.index? = some index ↔ value = .ofNat index ∧ index < indexLimit := by
  constructor
  · intro hindex
    match value, hindex with
    | .number (.integer n), hindex =>
        rw [Value.index?, Option.ite_none_right_eq_some] at hindex
        obtain ⟨⟨hnonneg, hlimit⟩, heq⟩ := hindex
        obtain rfl := Option.some.inj heq
        exact ⟨by rw [Value.ofNat, Int.toNat_of_nonneg hnonneg], hlimit⟩
  · rintro ⟨rfl, hlimit⟩
    rw [Value.ofNat, Value.index?, Int.toNat_natCast, if_pos ⟨Int.natCast_nonneg _, hlimit⟩]

/-- A list of values is read as indices when each of them is one. -/
theorem Value.mapM_index?_eq_some_iff (items : List Value) (steps : List Nat) :
    items.mapM Value.index? = some steps ↔
      items = steps.map Value.ofNat ∧ ∀ step ∈ steps, step < indexLimit := by
  induction items generalizing steps with
  | nil => simp +contextual [eq_comm]
  | cons value rest ih =>
      rw [List.mapM_cons]
      constructor
      · intro hsteps
        obtain ⟨step, hstep, hrest⟩ := Option.bind_eq_some_iff.mp hsteps
        obtain ⟨steps', hsteps', heq⟩ := Option.bind_eq_some_iff.mp hrest
        obtain ⟨rfl, hlimit⟩ := Value.index?_eq_some_iff.mp hstep
        obtain ⟨rfl, hlimits⟩ := (ih steps').mp hsteps'
        obtain rfl := Option.some.inj heq
        exact ⟨rfl, List.forall_mem_cons.mpr ⟨hlimit, hlimits⟩⟩
      · rintro ⟨hitems, hlimits⟩
        obtain ⟨step, steps', rfl, rfl, rfl⟩ := List.map_eq_cons_iff.mp hitems.symm
        obtain ⟨hlimit, hlimits⟩ := List.forall_mem_cons.mp hlimits
        refine Option.bind_eq_some_iff.mpr ⟨_, Value.index?_eq_some_iff.mpr ⟨rfl, hlimit⟩, ?_⟩
        exact Option.bind_eq_some_iff.mpr ⟨_, (ih _).mpr ⟨rfl, hlimits⟩, rfl⟩

namespace Pulses

/-- **Decoding accepts exactly the records of pulses** whose indices are sixty-four-bit
words; it asks for no order. -/
theorem decode?_eq_some_iff {value : Value} :
    decode? value = some pulses ↔
      value = pulses.toRecord ∧ ∀ step ∈ pulses.steps, step < indexLimit := by
  simp only [decode?, bind, Option.bind_eq_some_iff, Value.items?_eq_some_iff,
    Value.mapM_index?_eq_some_iff, pure, Option.some.injEq]
  constructor
  · rintro ⟨items, rfl, steps, ⟨rfl, hlimits⟩, rfl⟩
    exact ⟨rfl, hlimits⟩
  · rintro ⟨rfl, hlimits⟩
    exact ⟨_, rfl, pulses.steps, ⟨rfl, hlimits⟩, rfl⟩

/-! ### Each way to build pulses -/

/-- **The ways to come by pulses.** -/
inductive Built : Pulses → Prop
  | detected (events : List Event) (baseline : Option Float) : Built (detect events baseline)
  | none : Built empty
  | decoded {value : Value} {pulses : Pulses} (h : decode? value = some pulses) : Built pulses

/-- **Which pulses are orderly.**  Detected pulses are, whatever the events and the
baseline, and so are no pulses at all.  A record is decoded when it is an array of indices,
and then gives these indices in the order they stand in, so that every list of
sixty-four-bit words is decoded from some record.  Pulses are orderly exactly when they
ascend strictly, and exactly when no two are equal and the search finds each of them. -/
theorem orderly_construction (events : List Event) (baseline : Option Float) (value : Value)
    (pulses : Pulses) :
    (detect events baseline).Orderly ∧ empty.Orderly ∧
      (decode? value = some pulses ↔
        value = pulses.toRecord ∧ ∀ step ∈ pulses.steps, step < 2 ^ 64) ∧
      (pulses.Orderly ↔ pulses.steps.Pairwise (· < ·)) ∧
      (pulses.Orderly ↔
        pulses.steps.Nodup ∧ ∀ step ∈ pulses.steps, pulses.contains step = true) := by
  refine ⟨?_, ?_, ?_, orderly_iff, ?_⟩
  · exact orderly_iff.mpr (pairwise_steps_detect events baseline)
  · exact orderly_iff.mpr List.Pairwise.nil
  · rw [decode?_eq_some_iff, indexLimit_eq]
  · constructor
    · intro horderly
      refine ⟨horderly.ascending.imp Nat.ne_of_lt, fun step hstep => ?_⟩
      exact (horderly.contains_iff step).mpr hstep
    · rintro ⟨hdistinct, hfound⟩
      exact orderly_iff.mpr (ascending_of_contains hdistinct hfound)

/-- **Decoded pulses need not be orderly.**  The record `[5, 1]` is accepted as it stands;
its pulse 5 is not found, and after step 1 none remains although 5 does. -/
theorem not_orderly_decoded :
    (decode? (.array [.ofNat 5, .ofNat 1]) = some ⟨[5, 1]⟩ ∧
      5 ∈ [5, 1] ∧ (Pulses.mk [5, 1]).contains 5 = false ∧
      (Pulses.mk [5, 1]).remainingAfter 1 = 0 ∧ [5, 1].countP (1 < ·) = 1) ∧
      ¬ ∀ pulses, Built pulses → pulses.Orderly := by
  have hdecode : decode? (.array [.ofNat 5, .ofNat 1]) = some ⟨[5, 1]⟩ :=
    decode?_eq_some_iff.mpr ⟨rfl, by decide⟩
  have hmissed : (Pulses.mk [5, 1]).contains 5 = false := by cbv
  refine ⟨⟨hdecode, by decide, hmissed, by cbv, by decide⟩, fun h => ?_⟩
  have hfound := ((h _ (Built.decoded hdecode)).contains_iff 5).mpr (by decide)
  exact Bool.false_ne_true (hmissed.symm.trans hfound)

end Pulses

end YarnPreview
