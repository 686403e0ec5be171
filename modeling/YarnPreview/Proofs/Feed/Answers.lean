import Mathlib
import YarnPreview.Proofs.Feed.Queries

/-!
# Which questions about the queue have an answer

A question that overflows has none.  Membership and the number of pulses ahead never add
anything up, so they always answer; the next pulses and the two sentences add a position to
a limit and one to an index.  This module says for which pulses, steps and limits the sums
stay in range, and what the answers are then.

## Main definitions

* `Pulses.later` — the pulses after a step
* `Pulses.stepName` — a step as people count it, of any size
* `Pulses.LabelsInRange` — the sums behind the sentences stay in range

## Main statements

* `Pulses.upcoming_eq_ok_iff`, `Pulses.nextLabels_eq_ok_iff` — when the next pulses and their
  labels are given
* `Pulses.exists_upcomingStatus_iff`, `Pulses.exists_queueStatus_iff` — when the sentences are
* `Pulses.answered_exactly` — all of them, on pulses that ascend
* `Pulses.not_answered_all` — asking for all that remain, by the largest limit, fails

## Where the sums leave the range

**The end of a run.**  It is computed before it is cut down to the number of pulses, so a
limit that only means "all of them" overflows as soon as one pulse is behind the step.

**The number of a step.**  The last index of all has none.  Detection never gives it; pulses
that are decoded may hold it.
-/

namespace YarnPreview

/-- A computation that goes on succeeds when both of its parts do. -/
theorem bind_eq_ok_iff {ε α β : Type} {x : Except ε α} {f : α → Except ε β} {b : β} :
    x.bind f = .ok b ↔ ∃ a, x = .ok a ∧ f a = .ok b := by
  cases x <;> simp [Except.bind]

/-- A computation whose result is changed succeeds when it did before. -/
theorem map_eq_ok_iff {ε α β : Type} {x : Except ε α} {f : α → β} {b : β} :
    x.map f = .ok b ↔ ∃ a, x = .ok a ∧ f a = b := by
  cases x <;> simp [Except.map]

namespace Pulses

variable {pulses : Pulses}

/-- **The pulses after a step.** -/
def later (pulses : Pulses) (step : Nat) : List Nat :=
  pulses.steps.filter (step < ·)

/-- **A step as people count it**, from one, whatever its size. -/
def stepName (index : Nat) : String :=
  "#" ++ toString (index + 1)

/-! ### The next pulses -/

/-- **The next pulses are given** exactly when the end of the run is a word: the position of
the step plus the limit, even where far fewer pulses remain. -/
theorem upcoming_eq_ok_iff (h : pulses.steps.Pairwise (· ≤ ·)) (step limit : Nat)
    (next : List Nat) :
    pulses.upcoming step limit = .ok next ↔
      pulses.steps.countP (· ≤ step) + limit < indexLimit ∧
        (pulses.later step).take limit = next := by
  rw [upcoming_eq, drop_position h, position_eq_countP h]
  split
  · next hrange => simp [hrange, later]
  · next hrange => simp [hrange]

/-- A label is given when the step has a number. -/
theorem stepLabel_eq_ok_iff (index : Nat) (label : String) :
    stepLabel index = .ok label ↔ index + 1 < indexLimit ∧ stepName index = label := by
  rw [stepLabel]
  split
  · next hrange => simp [hrange, stepName]
  · next hrange => simp [hrange]

/-- **Labels are given** when every one of the steps has a number. -/
theorem mapM_stepLabel_eq_ok_iff (indices : List Nat) (labels : List String) :
    indices.mapM stepLabel = .ok labels ↔
      (∀ index ∈ indices, index + 1 < indexLimit) ∧ indices.map stepName = labels := by
  induction indices generalizing labels with
  | nil => simp [pure, Except.pure]
  | cons index rest ih =>
      rw [List.mapM_cons, List.forall_mem_cons, List.map_cons]
      constructor
      · intro hlabels
        obtain ⟨label, hlabel, hrest⟩ := bind_eq_ok_iff.mp hlabels
        obtain ⟨labels', hlabels', heq⟩ := bind_eq_ok_iff.mp hrest
        obtain ⟨hindex, rfl⟩ := (stepLabel_eq_ok_iff index label).mp hlabel
        obtain ⟨hrange, rfl⟩ := (ih labels').mp hlabels'
        cases heq
        exact ⟨⟨hindex, hrange⟩, rfl⟩
      · rintro ⟨⟨hindex, hrange⟩, rfl⟩
        refine bind_eq_ok_iff.mpr ⟨_, (stepLabel_eq_ok_iff _ _).mpr ⟨hindex, rfl⟩, ?_⟩
        exact bind_eq_ok_iff.mpr ⟨_, (ih _).mpr ⟨hrange, rfl⟩, rfl⟩

/-- **The sums of the sentences stay in range**: the end of the run that they look ahead, and
the numbers of the steps in it. -/
def LabelsInRange (pulses : Pulses) (step : Nat) : Prop :=
  pulses.steps.countP (· ≤ step) + lookahead < indexLimit ∧
    ∀ index ∈ (pulses.later step).take lookahead, index + 1 < indexLimit

/-- The labels of the next few pulses. -/
theorem nextLabels_eq_ok_iff (h : pulses.steps.Pairwise (· ≤ ·)) (step : Nat)
    (labels : List String) :
    pulses.nextLabels step = .ok labels ↔
      pulses.LabelsInRange step ∧
        ((pulses.later step).take lookahead).map stepName = labels := by
  rw [nextLabels, bind_eq_ok_iff]
  simp only [upcoming_eq_ok_iff h, mapM_stepLabel_eq_ok_iff]
  constructor
  · rintro ⟨next, ⟨hend, rfl⟩, hrange, hlabels⟩
    exact ⟨⟨hend, hrange⟩, hlabels⟩
  · rintro ⟨⟨hend, hrange⟩, hlabels⟩
    exact ⟨_, ⟨hend, rfl⟩, hrange, hlabels⟩

/-! ### The sentences -/

/-- **The pulses ahead are told** when the sums stay in range. -/
theorem exists_upcomingStatus_iff (h : pulses.steps.Pairwise (· ≤ ·)) (step : Nat) :
    (∃ text, pulses.upcomingStatus step = .ok text) ↔ pulses.LabelsInRange step := by
  simp only [upcomingStatus, map_eq_ok_iff, nextLabels_eq_ok_iff h]
  constructor
  · rintro ⟨text, labels, ⟨hrange, -⟩, -⟩
    exact hrange
  · intro hrange
    exact ⟨_, _, ⟨hrange, rfl⟩, rfl⟩

/-- Without pulses there is nothing that leaves the range. -/
theorem labelsInRange_of_isEmpty (h : pulses.isEmpty = true) (step : Nat) :
    pulses.LabelsInRange step := by
  have hsteps : pulses.steps = [] := List.isEmpty_iff.mp h
  simp [LabelsInRange, later, hsteps, lookahead, indexLimit]

/-- **The queue is told** in the same cases, though it looks ahead only when there are
pulses. -/
theorem exists_queueStatus_iff (h : pulses.steps.Pairwise (· ≤ ·)) (step : Nat) :
    (∃ text, pulses.queueStatus step = .ok text) ↔ pulses.LabelsInRange step := by
  rw [queueStatus]
  split
  · next hempty => simp [labelsInRange_of_isEmpty hempty step]
  · simp only [map_eq_ok_iff, nextLabels_eq_ok_iff h]
    constructor
    · rintro ⟨text, labels, ⟨hrange, -⟩, -⟩
      exact hrange
    · intro hrange
      exact ⟨_, _, ⟨hrange, rfl⟩, rfl⟩

/-- Among indices that are words, the last word of all is the one that has no number. -/
theorem labelsInRange_iff (hwords : ∀ index ∈ pulses.steps, index < 2 ^ 64) (step : Nat) :
    pulses.LabelsInRange step ↔
      pulses.steps.countP (· ≤ step) + 3 < 2 ^ 64 ∧ 2 ^ 64 - 1 ∉ (pulses.later step).take 3 := by
  refine and_congr_right fun _ => ⟨?_, ?_⟩
  · intro hrange hlast
    exact absurd (hrange _ hlast) (by decide)
  · intro hlast index hindex
    have hword : index < 2 ^ 64 :=
      hwords index (List.mem_filter.mp (List.mem_of_mem_take hindex)).1
    have hne : index ≠ 2 ^ 64 - 1 := by
      rintro rfl
      exact hlast hindex
    rw [indexLimit_eq]
    omega

/-- **When the questions are answered**, on ascending pulses that are words.  Membership and
the number of pulses ahead always are, the latter by a difference that is not negative.  The
next pulses are the first of the later ones, as many as are asked for or as there are, exactly
when the position of the step and the limit add up to a word.  The sentences are given exactly
when this holds for a limit of three and the last word of all is not among the next three
pulses. -/
theorem answered_exactly (h : pulses.steps.Pairwise (· ≤ ·))
    (hwords : ∀ index ∈ pulses.steps, index < 2 ^ 64) (step limit : Nat) :
    (∀ index, pulses.contains index = true ↔ index ∈ pulses.steps) ∧
      (pulses.position step ≤ pulses.size ∧
        pulses.remainingAfter step = pulses.steps.countP (step < ·)) ∧
      (∀ next, pulses.upcoming step limit = .ok next ↔
        pulses.steps.countP (· ≤ step) + limit < 2 ^ 64 ∧
          next = (pulses.later step).take (min limit (pulses.remainingAfter step))) ∧
      ((∃ text, pulses.upcomingStatus step = .ok text) ↔
        pulses.steps.countP (· ≤ step) + 3 < 2 ^ 64 ∧
          2 ^ 64 - 1 ∉ (pulses.later step).take 3) ∧
      ((∃ text, pulses.queueStatus step = .ok text) ↔
        pulses.steps.countP (· ≤ step) + 3 < 2 ^ 64 ∧
          2 ^ 64 - 1 ∉ (pulses.later step).take 3) := by
  have hremaining : pulses.remainingAfter step = (pulses.later step).length :=
    remainingAfter_eq_length h step
  refine ⟨contains_iff_mem h, ⟨position_le_size pulses step, ?_⟩, ?_, ?_, ?_⟩
  · rw [hremaining, later, List.countP_eq_length_filter]
  · intro next
    rw [upcoming_eq_ok_iff h, indexLimit_eq, hremaining, ← List.take_eq_take_min, eq_comm]
  · rw [exists_upcomingStatus_iff h, labelsInRange_iff hwords]
  · rw [exists_queueStatus_iff h, labelsInRange_iff hwords]

/-- The largest limit that is answered with two pulses behind the step; it asks for far more
than the one pulse that remains, whose number is the last word of all. -/
theorem answered_exactly_largest :
    (Pulses.mk [1, 1, 2 ^ 64 - 2]).contains (2 ^ 64 - 2) = true ∧
      (Pulses.mk [1, 1, 2 ^ 64 - 2]).remainingAfter 1 = 1 ∧
      (Pulses.mk [1, 1, 2 ^ 64 - 2]).upcoming 1 (2 ^ 64 - 3) = .ok [2 ^ 64 - 2] ∧
      ∃ text, (Pulses.mk [1, 1, 2 ^ 64 - 2]).queueStatus 1 = .ok text := by
  obtain ⟨hcontains, ⟨-, hremaining⟩, hupcoming, -, hqueue⟩ :=
    @answered_exactly ⟨[1, 1, 2 ^ 64 - 2]⟩ (by decide) (by decide) 1 (2 ^ 64 - 3)
  have hone : (Pulses.mk [1, 1, 2 ^ 64 - 2]).remainingAfter 1 = 1 := hremaining
  refine ⟨(hcontains _).mpr (by decide), hone, (hupcoming _).mpr ⟨by decide, ?_⟩,
    hqueue.mpr (by decide)⟩
  rw [hone]
  decide

/-- **All that remain, by the largest limit**: with one pulse behind the step the question has
no answer, though one pulse remains.  Nor has a sentence about the last word of all. -/
theorem not_answered_all :
    ([0, 5].Pairwise (· ≤ ·) ∧ ∀ index ∈ [0, 5], index < 2 ^ 64) ∧
      (Pulses.mk [0, 5]).later 0 = [5] ∧
      (¬ ∃ next, (Pulses.mk [0, 5]).upcoming 0 (2 ^ 64 - 1) = .ok next) ∧
      (¬ ∃ text, (Pulses.mk [2 ^ 64 - 1]).upcomingStatus 0 = .ok text) ∧
      ¬ ∃ text, (Pulses.mk [2 ^ 64 - 1]).queueStatus 0 = .ok text := by
  have hascending : [0, 5].Pairwise (· ≤ ·) := by decide
  have hlast : ¬ (Pulses.mk [2 ^ 64 - 1]).LabelsInRange 0 := by
    rw [labelsInRange_iff (by decide)]
    decide
  refine ⟨⟨hascending, by decide⟩, by decide, ?_, ?_, ?_⟩
  · rintro ⟨next, hnext⟩
    exact absurd ((upcoming_eq_ok_iff hascending _ _ _).mp hnext).1 (by decide)
  · rwa [exists_upcomingStatus_iff (List.pairwise_singleton _ _)]
  · rwa [exists_queueStatus_iff (List.pairwise_singleton _ _)]

end Pulses

end YarnPreview
