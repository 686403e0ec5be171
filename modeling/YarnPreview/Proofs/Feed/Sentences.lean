import Mathlib
import YarnPreview.Proofs.Feed.Answers
import YarnPreview.Proofs.Feed.Detection

/-!
# What the sentences about the queue say

Two sentences tell what lies ahead of a step.  They find it out in different ways: one looks
at the next few pulses alone, the other at the number of all pulses, at the next few and at a
difference of positions.  This module shows that for the pulses of a plan both say the same
and the truth, and that each form of a sentence stands for one situation.

## Main definitions

* `Pulses.listed` — the next three pulses, as a text
* `Pulses.overText`, `Pulses.aheadText` — the queue when nothing and when something is ahead
* `Pulses.queueText` — the queue by the number of pulses ahead and of all pulses
* `Pulses.Tells` — the meaning of the two sentences

## Main statements

* `Pulses.queueStatus_eq`, `Pulses.upcomingStatus_eq` — the sentences of pulses whose labels
  stay in range
* `Pulses.labelsInRange_detect` — those of the pulses of a plan do
* `Pulses.tells_detect` — the sentences about every plan, at every step

## Why the forms are not mistaken for each other

The idle text goes on with a letter where the others have a digit.  Of the two with digits the
one ends with a digit and the other with a bracket.

## The length of a plan

A list in memory is far shorter than the words that count its items, and here it has to leave
room for the three steps that are looked ahead.  Lists of this library have any length, so the
statements about plans say so.
-/

namespace YarnPreview.Pulses

variable {pulses : Pulses}

/-! ### The forms of the sentences -/

/-- **The next three pulses after a step**, as people count them. -/
def listed (pulses : Pulses) (step : Nat) : String :=
  ", ".intercalate (((pulses.later step).take 3).map stepName)

/-- The queue when no pulse is ahead. -/
def overText (all : Nat) : String :=
  "Remaining feed pulses: 0 of " ++ toString all

/-- The queue when some pulses are ahead. -/
def aheadText (left all : Nat) (next : String) : String :=
  "Remaining feed pulses: " ++ toString left ++ " of " ++ toString all ++ " (next " ++ next ++ ")"

/-- **The queue in a sentence**, by the number of pulses ahead and of all pulses. -/
def queueText (left all : Nat) (next : String) : String :=
  if all = 0 then Messages.standard.yarnQueue
  else if left = 0 then overText all
  else aheadText left all next

/-- The characters of a number are digits, and there is at least one. -/
theorem digits_toString (n : Nat) :
    (toString n).toList ≠ [] ∧ ∀ c ∈ (toString n).toList, c.isDigit = true := by
  have hdigits : (toString n).toList = Nat.toDigits 10 n := Nat.toList_repr
  rw [hdigits]
  exact ⟨Nat.toDigits_ne_nil, fun c hc => Nat.isDigit_of_mem_toDigits (by decide) (by decide) hc⟩

/-- Where the idle queue has a letter, every other queue has a digit. -/
theorem yarnQueue_ne (n : Nat) (rest : String) :
    Messages.standard.yarnQueue ≠ "Remaining feed pulses: " ++ (toString n ++ rest) := by
  intro h
  have hidle : Messages.standard.yarnQueue =
      "Remaining feed pulses: " ++ "Awaiting planner preview\u2026" := by decide +kernel
  rw [hidle, String.append_right_inj] at h
  obtain ⟨hne, hdigits⟩ := digits_toString n
  have hhead : (toString n).toList.head? = some 'A' := by
    rw [← List.head?_append_of_ne_nil _ hne, ← String.toList_append, ← h]
    decide +kernel
  exact absurd (hdigits 'A' (List.mem_of_mem_head? hhead)) (by decide)

/-- The idle queue is none that is over, … -/
theorem yarnQueue_ne_overText (all : Nat) : Messages.standard.yarnQueue ≠ overText all := by
  have hopening : "Remaining feed pulses: 0 of " =
      "Remaining feed pulses: " ++ (toString 0 ++ " of ") := by decide +kernel
  -- regrouped as variables: matched against literals the law takes long
  have hgroup : ∀ a b c d : String, a ++ (b ++ c) ++ d = a ++ (b ++ (c ++ d)) := by
    intro a b c d
    rw [String.append_assoc, String.append_assoc]
  intro h
  exact yarnQueue_ne 0 _ (h.trans ((congrArg (· ++ toString all) hopening).trans (hgroup _ _ _ _)))

/-- … and none that lists pulses. -/
theorem yarnQueue_ne_aheadText (left all : Nat) (next : String) :
    Messages.standard.yarnQueue ≠ aheadText left all next := by
  have hgroup : ∀ a b c d e f g : String,
      a ++ b ++ c ++ d ++ e ++ f ++ g = a ++ (b ++ (c ++ d ++ e ++ f ++ g)) := by
    intro a b c d e f g
    simp only [String.append_assoc]
  intro h
  exact yarnQueue_ne left _ (h.trans (hgroup _ _ _ _ _ _ _))

/-- A queue that lists nothing ends with a digit, the other one with a bracket. -/
theorem overText_ne_aheadText (left all : Nat) (next : String) :
    overText all ≠ aheadText left all next := by
  intro h
  obtain ⟨hne, hdigits⟩ := digits_toString all
  obtain ⟨front, hfront⟩ : ∃ front, aheadText left all next = front ++ ")" := ⟨_, rfl⟩
  obtain ⟨start, hstart⟩ : ∃ start, overText all = start ++ toString all := ⟨_, rfl⟩
  have hlast : (toString all).toList.getLast? = some ')' := by
    rw [← List.getLast?_append_of_ne_nil start.toList hne, ← String.toList_append, ← hstart, h,
      hfront, String.toList_append]
    exact List.getLast?_concat
  exact absurd (hdigits ')' (List.mem_of_getLast? hlast)) (by decide)

/-- The queue is idle when there are no pulses. -/
theorem queueText_eq_idle_iff (left all : Nat) (next : String) :
    queueText left all next = Messages.standard.yarnQueue ↔ all = 0 := by
  unfold queueText
  split
  · next hall => simp [hall]
  · next hall =>
      refine iff_of_false ?_ hall
      split
      · exact (yarnQueue_ne_overText all).symm
      · exact (yarnQueue_ne_aheadText left all next).symm

/-- The queue is over when there are pulses and none is ahead. -/
theorem queueText_eq_over_iff (left all : Nat) (next : String) :
    queueText left all next = overText all ↔ 0 < all ∧ left = 0 := by
  unfold queueText
  split
  · next hall =>
      refine iff_of_false ?_ (by omega)
      exact yarnQueue_ne_overText all
  · next hall =>
      split
      · next hleft => simp [hleft, Nat.pos_of_ne_zero hall]
      · next hleft =>
          refine iff_of_false ?_ (by omega)
          exact (overText_ne_aheadText left all next).symm

/-- The queue lists pulses when there are some ahead. -/
theorem queueText_eq_ahead_iff {left all : Nat} (hle : left ≤ all) (next : String) :
    queueText left all next = aheadText left all next ↔ 0 < left := by
  unfold queueText
  split
  · next hall =>
      refine iff_of_false ?_ (by omega)
      exact yarnQueue_ne_aheadText left all next
  · next hall =>
      split
      · next hleft =>
          refine iff_of_false ?_ (by omega)
          exact overText_ne_aheadText left all next
      · next hleft => simp [Nat.pos_of_ne_zero hleft]

/-- Where the idle sentence has a letter, a list of steps has the mark of the first one, or
nothing at all. -/
theorem yarnUpcoming_ne (indices : List Nat) :
    Messages.standard.yarnUpcoming ≠
      "Next feed pulses: " ++ ", ".intercalate (indices.map stepName) := by
  intro h
  have hidle : Messages.standard.yarnUpcoming =
      "Next feed pulses: " ++ "Awaiting planner preview\u2026" := by decide +kernel
  rw [hidle, String.append_right_inj] at h
  cases indices with
  | nil => exact absurd h (by decide +kernel)
  | cons index rest =>
      rw [List.map_cons, stepName, String.intercalate_cons_append] at h
      have hhead := congrArg (fun text => text.toList.head?) h
      simp at hhead

/-! ### The sentences of pulses in range -/

/-- There are labels exactly when there are pulses ahead. -/
theorem isEmpty_labels_iff (pulses : Pulses) (step : Nat) :
    (((pulses.later step).take lookahead).map stepName).isEmpty = true ↔
      (pulses.later step).length = 0 := by
  rw [List.isEmpty_iff, List.map_eq_nil_iff, List.take_eq_nil_iff, List.length_eq_zero_iff,
    or_iff_right (by decide)]

/-- **The queue in a sentence**, for pulses whose labels stay in range. -/
theorem queueStatus_eq (h : pulses.steps.Pairwise (· ≤ ·)) {step : Nat}
    (hrange : pulses.LabelsInRange step) :
    pulses.queueStatus step =
      .ok (queueText (pulses.later step).length pulses.size (pulses.listed step)) := by
  have hlabels := (nextLabels_eq_ok_iff h step _).mpr ⟨hrange, rfl⟩
  have hremaining : pulses.remainingAfter step = (pulses.later step).length :=
    remainingAfter_eq_length h step
  have hempty : pulses.isEmpty = true ↔ pulses.size = 0 := by
    rw [isEmpty, List.isEmpty_iff, size, List.length_eq_zero_iff]
  rw [queueStatus, hlabels, hremaining, queueText]
  simp only [hempty, Except.map, isEmpty_labels_iff]
  split
  · rfl
  · rfl

/-- **The pulses ahead in a sentence**, for pulses whose labels stay in range. -/
theorem upcomingStatus_eq (h : pulses.steps.Pairwise (· ≤ ·)) {step : Nat}
    (hrange : pulses.LabelsInRange step) :
    pulses.upcomingStatus step = .ok
      (if (pulses.later step).length = 0 then Messages.standard.yarnUpcoming
        else "Next feed pulses: " ++ pulses.listed step) := by
  have hlabels := (nextLabels_eq_ok_iff h step _).mpr ⟨hrange, rfl⟩
  rw [upcomingStatus, hlabels]
  simp only [Except.map, isEmpty_labels_iff]
  rfl

/-! ### The pulses of a plan -/

/-- **What the two sentences say** of pulses among a number of steps. -/
structure Tells (pulses : Pulses) (step stepCount : Nat) : Prop where
  /-- The queue is idle when there are no pulses at all, … -/
  queue_idle : pulses.queueStatus step = .ok Messages.standard.yarnQueue ↔ pulses.size = 0
  /-- … it is over when there are some and none of them is ahead, … -/
  queue_over : pulses.queueStatus step = .ok (overText pulses.size) ↔
    0 < pulses.size ∧ (pulses.later step).length = 0
  /-- … and in all other cases it tells how many are, and which come next. -/
  queue_ahead : pulses.queueStatus step =
      .ok (aheadText (pulses.later step).length pulses.size (pulses.listed step)) ↔
    0 < (pulses.later step).length
  /-- The other sentence is idle when none is ahead, and lists the same pulses when some are. -/
  upcoming_idle : pulses.upcomingStatus step = .ok Messages.standard.yarnUpcoming ↔
    (pulses.later step).length = 0
  upcoming_ahead : pulses.upcomingStatus step = .ok ("Next feed pulses: " ++ pulses.listed step) ↔
    0 < (pulses.later step).length
  /-- Of the pulses ahead the first three are listed, or as many as there are, … -/
  length_listed : ((pulses.later step).take 3).length = min 3 (pulses.later step).length
  /-- … by numbers that are numbers of steps. -/
  number_le : ∀ index ∈ (pulses.later step).take 3, index + 1 ≤ stepCount

/-- The pulses of a plan ascend. -/
theorem ascending_detect (events : List Event) (baseline : Option Float) :
    (detect events baseline).steps.Pairwise (· ≤ ·) :=
  (pairwise_steps_detect events baseline).imp Nat.le_of_lt

/-- There are no more pulses than steps: they ascend strictly, below the number of steps. -/
theorem size_detect_le (events : List Event) (baseline : Option Float) :
    (detect events baseline).size ≤ events.length := by
  have hsubset : (detect events baseline).steps ⊆ List.range events.length := by
    intro index hindex
    exact List.mem_range.mpr (lt_length_of_mem_detect hindex)
  have hnodup : (detect events baseline).steps.Nodup :=
    (pairwise_steps_detect events baseline).imp Nat.ne_of_lt
  simpa [size] using (hnodup.subperm hsubset).length_le

/-- A pulse ahead is the index of a step. -/
theorem number_le_of_mem_later {events : List Event} {baseline : Option Float} {step index : Nat}
    (h : index ∈ ((detect events baseline).later step).take 3) : index + 1 ≤ events.length :=
  lt_length_of_mem_detect (List.mem_filter.mp (List.mem_of_mem_take h)).1

/-- **The labels of a plan stay in range**, as long as three more than its steps can be
counted. -/
theorem labelsInRange_detect {events : List Event} (hlength : events.length + 3 < 2 ^ 64)
    (baseline : Option Float) (step : Nat) : (detect events baseline).LabelsInRange step := by
  have hsize := size_detect_le events baseline
  have hcount : (detect events baseline).steps.countP (· ≤ step) ≤ (detect events baseline).size :=
    List.countP_le_length
  rw [LabelsInRange, indexLimit_eq, lookahead]
  refine ⟨by omega, ?_⟩
  intro index hindex
  have := number_le_of_mem_later hindex
  omega

/-- **The sentences about a plan** say, at every step, whether there are pulses, how many of
them are ahead and which three come next; the numbers they list are numbers of its steps, so
none of them overflows. -/
theorem tells_detect {events : List Event} (hlength : events.length + 3 < 2 ^ 64)
    (baseline : Option Float) (step : Nat) :
    (detect events baseline).Tells step events.length := by
  have hascending := ascending_detect events baseline
  have hrange := labelsInRange_detect hlength baseline step
  have hqueue := queueStatus_eq hascending hrange
  have hupcoming := upcomingStatus_eq hascending hrange
  refine ⟨?_, ?_, ?_, ?_, ?_, List.length_take, fun index => number_le_of_mem_later⟩
  · rw [hqueue, Except.ok.injEq, queueText_eq_idle_iff]
  · rw [hqueue, Except.ok.injEq, queueText_eq_over_iff]
  · rw [hqueue, Except.ok.injEq]
    exact queueText_eq_ahead_iff (List.length_filter_le _ _) _
  · rw [hupcoming, Except.ok.injEq]
    split
    · next hnone => simp [hnone]
    · next hsome => exact iff_of_false (yarnUpcoming_ne _).symm hsome
  · rw [hupcoming, Except.ok.injEq]
    split
    · next hnone => exact iff_of_false (yarnUpcoming_ne _) (by omega)
    · next hsome => simp [Nat.pos_of_ne_zero hsome]

/-- Five steps whose extrusion grows by one each time. -/
def growing : List Event :=
  [1.0, 2.0, 3.0, 4.0, 5.0].map fun x => { Event.empty with extrusion := some x }

/-- From a baseline of zero all five of them are pulses.  After the second one three are ahead,
after the fourth one, and after the last one none. -/
theorem tells_detect_growing :
    ((detect growing (some 0.0)).queueStatus 1 =
        .ok "Remaining feed pulses: 3 of 5 (next #3, #4, #5)" ∧
      (detect growing (some 0.0)).upcomingStatus 1 = .ok "Next feed pulses: #3, #4, #5") ∧
    (detect growing (some 0.0)).queueStatus 3 = .ok "Remaining feed pulses: 1 of 5 (next #5)" ∧
    (detect growing (some 0.0)).queueStatus 9 = .ok "Remaining feed pulses: 0 of 5" ∧
    (detect growing (some 0.0)).upcomingStatus 9 = .ok Messages.standard.yarnUpcoming := by
  have htells := @tells_detect growing (by decide) (some 0.0)
  refine ⟨⟨?_, ?_⟩, ?_, ?_, (htells 9).upcoming_idle.mpr (by decide +kernel)⟩
  · refine ((htells 1).queue_ahead.mpr (by decide +kernel)).trans (congrArg Except.ok ?_)
    decide +kernel
  · refine ((htells 1).upcoming_ahead.mpr (by decide +kernel)).trans (congrArg Except.ok ?_)
    decide +kernel
  · refine ((htells 3).queue_ahead.mpr (by decide +kernel)).trans (congrArg Except.ok ?_)
    decide +kernel
  · refine ((htells 9).queue_over.mpr (by decide +kernel)).trans (congrArg Except.ok ?_)
    decide +kernel

end YarnPreview.Pulses
