import Mathlib
import YarnPreview.Feed.Queue

/-!
# The feed queue without bisection

Every question about the queue is answered by halving a window of positions.  This module
says what comes out in terms of the list itself: membership, the pulses later than a step
and how many there are.

## Main statements

* `settle_eq_max` — where the bisection ends
* `Pulses.position_le_size`, `Pulses.upcoming_eq` — the run of the next pulses lies in the list
* `Pulses.position_eq_countP` — the position of a step counts the pulses no later than it
* `Pulses.drop_position` — the pulses from that position on are the later ones
* `Pulses.contains_iff_mem` — the search finds what is there
* `Pulses.queries_exact` — the three queries on pulses that ascend

## What is assumed of the pulses

Only that they ascend, and not even this where a position is compared with the length of
the list.  A pulse may occur several times; the search then ends at the last of its
occurrences, which is why `contains` looks at the position it ends at and not at the first
one.
-/

namespace YarnPreview

/-- Step indices, positions and limits are below this power of two. -/
theorem indexLimit_eq : indexLimit = 2 ^ 64 := rfl

/-- The bisection stays inside its window. -/
theorem settle_mem_window (below : Nat → Bool) (base size : Nat) :
    base ≤ settle below base size ∧ settle below base size ≤ base + (size - 1) := by
  fun_induction settle below base size with
  | case1 base size hsmall => omega
  | case2 base size hlarge middle ih =>
      have hmiddle : middle = base + size / 2 := rfl
      by_cases hbelow : below middle = true
      · simp only [dif_pos hbelow, if_pos hbelow] at ih ⊢
        omega
      · simp only [dif_neg hbelow, if_neg hbelow] at ih ⊢
        omega

/-- **Where the bisection ends**: at the last position that is `below`, when the positions
that are `below` are the first `count` and the window reaches that far; at the start of the
window when none of it is `below`. -/
theorem settle_eq_max {below : Nat → Bool} {count : Nat}
    (hbelow : ∀ position, below position = true ↔ position < count) (base size : Nat)
    (hcount : count ≤ base + size) : settle below base size = max base (count - 1) := by
  induction size using Nat.strong_induction_on generalizing base with
  | h size ih =>
      by_cases hsmall : size ≤ 1
      · rw [settle_of_le_one hsmall]
        omega
      · rw [settle, if_neg hsmall]
        -- The half that is kept still reaches past the last position that is `below`.
        by_cases hmiddle : below (base + size / 2) = true
        · have hlt := (hbelow _).mp hmiddle
          simp only [if_pos hmiddle]
          rw [ih (size - size / 2) (by omega) _ (by omega)]
          omega
        · have hle : ¬ base + size / 2 < count := fun hlt => hmiddle ((hbelow _).mpr hlt)
          simp only [if_neg hmiddle]
          exact ih (size - size / 2) (by omega) base (by omega)

/-- **An ascending list is cut in two by a number**: what is no larger comes first. -/
theorem filter_append_filter_of_ascending {steps : List Nat} (h : steps.Pairwise (· ≤ ·))
    (step : Nat) : steps.filter (· ≤ step) ++ steps.filter (step < ·) = steps := by
  induction steps with
  | nil => rfl
  | cons first rest ih =>
      obtain ⟨hfirst, hrest⟩ := List.pairwise_cons.mp h
      by_cases hle : first ≤ step
      · rw [List.filter_cons_of_pos (by simpa using hle),
          List.filter_cons_of_neg (by simpa using hle), List.cons_append, ih hrest]
      · -- The first one is larger already, so all of them are.
        have hlarger : ∀ later ∈ first :: rest, step < later := by
          intro later hlater
          rcases List.mem_cons.mp hlater with rfl | hmem
          · omega
          · have := hfirst later hmem
            omega
        have hnone : (first :: rest).filter (· ≤ step) = [] := by
          rw [List.filter_eq_nil_iff]
          intro later hlater
          simpa using hlarger later hlater
        have hall : (first :: rest).filter (step < ·) = first :: rest := by
          rw [List.filter_eq_self]
          intro later hlater
          simpa using hlarger later hlater
        rw [hnone, hall, List.nil_append]

namespace Pulses

/-! ### Positions and runs -/

/-- **No position lies beyond the pulses**, whatever their order: the search stays in the
list, and it goes one further only from a pulse that is there. -/
theorem position_le_size (pulses : Pulses) (step : Nat) :
    pulses.position step ≤ pulses.size := by
  rw [position]
  split
  · next hbehind =>
      obtain ⟨found, hfound, -⟩ := (Option.any_eq_true _ _).mp hbehind
      exact (List.getElem?_eq_some_iff.mp hfound).1
  · have hwindow := settle_mem_window (pulses.noLater step) 0 pulses.size
    rw [nearest]
    omega

/-- A run inside the list. -/
theorem run_eq_ok {pulses : Pulses} {start stop : Nat} (hstart : start ≤ stop)
    (hstop : stop ≤ pulses.size) :
    pulses.run start stop = .ok ((pulses.steps.drop start).take (stop - start)) := by
  rw [run, if_pos ⟨hstart, hstop⟩, List.drop_take]

/-- **The run of the next pulses lies in the list**, so that its end, as a sum, is all that can
fail; and cutting the end down to the length of the list cuts nothing off. -/
theorem upcoming_eq (pulses : Pulses) (step limit : Nat) :
    pulses.upcoming step limit =
      if pulses.position step + limit < indexLimit then
        .ok ((pulses.steps.drop (pulses.position step)).take limit)
      else .error (.runEnd (pulses.position step) limit) := by
  have hstart := pulses.position_le_size step
  have hlength : min (pulses.position step + limit) pulses.size - pulses.position step =
      min limit (pulses.steps.drop (pulses.position step)).length := by
    rw [List.length_drop]
    change _ = min limit (pulses.size - pulses.position step)
    omega
  rw [upcoming, run_eq_ok (by omega) (by omega), hlength, ← List.take_eq_take_min]

/-! ### Pulses that ascend -/

variable {pulses : Pulses}

/-- The pulses no later than a step are those at the first positions. -/
theorem noLater_iff_lt_countP (h : pulses.steps.Pairwise (· ≤ ·)) (step position : Nat) :
    pulses.noLater step position = true ↔ position < pulses.steps.countP (· ≤ step) := by
  have hcut := filter_append_filter_of_ascending h step
  rw [noLater, Option.any_eq_true, List.countP_eq_length_filter]
  constructor
  · rintro ⟨found, hfound, hle⟩
    by_contra hbeyond
    rw [← hcut, List.getElem?_append_right (by omega)] at hfound
    have hlater := (List.mem_filter.mp (List.mem_of_getElem? hfound)).2
    simp only [decide_eq_true_eq] at hle hlater
    omega
  · intro hlt
    rw [← hcut, List.getElem?_append_left hlt]
    exact ⟨_, List.getElem?_eq_getElem hlt, (List.mem_filter.mp (List.getElem_mem hlt)).2⟩

/-- The search for a step ends at the last pulse no later than it. -/
theorem nearest_eq_countP (h : pulses.steps.Pairwise (· ≤ ·)) (step : Nat) :
    pulses.nearest step = pulses.steps.countP (· ≤ step) - 1 := by
  have hcount : pulses.steps.countP (· ≤ step) ≤ 0 + pulses.size := by
    rw [Nat.zero_add]
    exact List.countP_le_length
  rw [nearest, settle_eq_max (noLater_iff_lt_countP h step) 0 pulses.size hcount, Nat.zero_max]

/-- **The position of a step counts the pulses no later than it.** -/
theorem position_eq_countP (h : pulses.steps.Pairwise (· ≤ ·)) (step : Nat) :
    pulses.position step = pulses.steps.countP (· ≤ step) := by
  rw [position, nearest_eq_countP h]
  simp only [noLater_iff_lt_countP h]
  split <;> omega

/-- **The pulses from the position of a step on** are the later ones. -/
theorem drop_position (h : pulses.steps.Pairwise (· ≤ ·)) (step : Nat) :
    pulses.steps.drop (pulses.position step) = pulses.steps.filter (step < ·) := by
  rw [position_eq_countP h, List.countP_eq_length_filter]
  nth_rewrite 2 [← filter_append_filter_of_ascending h step]
  exact List.drop_left

/-- **The search finds what is there.**  It ends at the last pulse no later than the step,
which is the step itself if that is a pulse at all. -/
theorem contains_iff_mem (h : pulses.steps.Pairwise (· ≤ ·)) (step : Nat) :
    pulses.contains step = true ↔ step ∈ pulses.steps := by
  rw [contains, beq_iff_eq, nearest_eq_countP h]
  constructor
  · exact List.mem_of_getElem?
  · intro hmem
    obtain ⟨position, hlt, hstep⟩ := List.getElem_of_mem hmem
    have hposition : position < pulses.steps.countP (· ≤ step) := by
      rw [← noLater_iff_lt_countP h, noLater, List.getElem?_eq_getElem hlt, hstep]
      simp
    -- The pulse found is no later than the step, and stands no earlier in the list.
    have hlast := (noLater_iff_lt_countP h step (pulses.steps.countP (· ≤ step) - 1)).mpr
      (by omega)
    obtain ⟨found, hfound, hle⟩ := (Option.any_eq_true _ _).mp hlast
    obtain ⟨hbound, hget⟩ := List.getElem?_eq_some_iff.mp hfound
    have hge : step ≤ found := by
      rw [← hstep, ← hget]
      exact h.rel_get_of_le (Fin.mk_le_mk.mpr (by omega))
    rw [hfound, le_antisymm (decide_eq_true_eq.mp hle) hge]

/-- How many pulses come after a step. -/
theorem remainingAfter_eq_length (h : pulses.steps.Pairwise (· ≤ ·)) (step : Nat) :
    pulses.remainingAfter step = (pulses.steps.filter (step < ·)).length := by
  rw [← drop_position h, List.length_drop]
  rfl

/-- **The three queries on pulses that ascend**, repeated ones allowed.  An index is found
exactly when it is a pulse; the difference that counts what remains is never negative and
counts the later pulses; and as long as the end of the run is a sixty-four-bit word, the
next pulses are the first of the later ones, as many as are asked for or as there are. -/
theorem queries_exact (h : pulses.steps.Pairwise (· ≤ ·)) (index step limit : Nat) :
    (pulses.contains index = true ↔ index ∈ pulses.steps) ∧
      (pulses.position step ≤ pulses.size ∧
        pulses.remainingAfter step = pulses.steps.countP (step < ·)) ∧
      (pulses.steps.countP (· ≤ step) + limit < 2 ^ 64 →
        ∃ next, pulses.upcoming step limit = .ok next ∧
          next = (pulses.steps.filter (step < ·)).take limit ∧
          next.length = min limit (pulses.remainingAfter step)) := by
  refine ⟨contains_iff_mem h index, ⟨position_le_size pulses step, ?_⟩, ?_⟩
  · rw [remainingAfter_eq_length h, List.countP_eq_length_filter]
  · intro hrange
    refine ⟨_, ?_, rfl, ?_⟩
    · rw [← position_eq_countP h] at hrange
      rw [upcoming_eq, indexLimit_eq, if_pos hrange, drop_position h]
    · rw [List.length_take, remainingAfter_eq_length h]

/-- A pulse that occurs twice and one at the last index there is: the search finds the
latter, one pulse remains after the former, and asking for more than remain gives what
there is. -/
theorem queries_exact_repeated :
    (Pulses.mk [2, 2, 2 ^ 64 - 1]).contains (2 ^ 64 - 1) = true ∧
      (Pulses.mk [2, 2, 2 ^ 64 - 1]).remainingAfter 2 = 1 ∧
      (Pulses.mk [2, 2, 2 ^ 64 - 1]).upcoming 2 5 = .ok [2 ^ 64 - 1] := by
  have hascending : [2, 2, 2 ^ 64 - 1].Pairwise (· ≤ ·) := by decide
  obtain ⟨hcontains, ⟨-, hremaining⟩, hupcoming⟩ :=
    @queries_exact ⟨[2, 2, 2 ^ 64 - 1]⟩ hascending (2 ^ 64 - 1) 2 5
  obtain ⟨next, hnext, rfl, -⟩ := hupcoming (by decide)
  exact ⟨hcontains.mpr (by decide), hremaining, hnext⟩

end Pulses

end YarnPreview
