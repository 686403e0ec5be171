import Mathlib
import YarnPreview.Feed.Pulses

/-!
# The detection loop, by recursion

Detection keeps a list of marks and appends to it, and a step has two occasions to be
marked.  Statements about pulses are easier about a list that grows at the front, where each
step is judged once.  This module gives that list and shows that the loop computes it.

## Main definitions

* `Event.isPulse` — is a step a pulse, for one reason or for both
* `Event.carry` — the last known extrusion after a step
* `feedsFrom` — the pulses among events, from an index and a last known extrusion

## Main statements

* `Pulses.mark_mark` — the second mark of a step is dropped
* `Scan.step_eq` — what one step does to detection under way
* `Pulses.steps_detect` — the loop computes `feedsFrom`

## The invariant

Every mark lies below the index of the step that comes next.  It makes the first mark of a
step succeed; the step re-establishes it, since what it adds is its own index.
-/

namespace YarnPreview

namespace Event

/-- **Is the step a pulse**, given the last known extrusion? -/
def isPulse (previous : Option Float) (event : Event) : Bool :=
  event.mentionsFeed ||
    event.measured?.any fun current => previous.any (grows · current)

/-- The last known extrusion after the step. -/
def carry (previous : Option Float) (event : Event) : Option Float :=
  event.measured?.or previous

end Event

/-- **The pulses among events**, the first of which has the given index. -/
def feedsFrom (index : Nat) (previous : Option Float) : List Event → List Nat
  | [] => []
  | event :: rest =>
      let later := feedsFrom (index + 1) (event.carry previous) rest
      if event.isPulse previous then index :: later else later

@[simp] theorem feedsFrom_nil (index : Nat) (previous : Option Float) :
    feedsFrom index previous [] = [] := rfl

theorem feedsFrom_cons (index : Nat) (previous : Option Float) (event : Event)
    (rest : List Event) :
    feedsFrom index previous (event :: rest) =
      if event.isPulse previous then
        index :: feedsFrom (index + 1) (event.carry previous) rest
      else feedsFrom (index + 1) (event.carry previous) rest := rfl

/-! ### Marks -/

namespace Pulses

/-- Every mark lies below an index. -/
def Below (pulses : Pulses) (index : Nat) : Prop :=
  ∀ step ∈ pulses.steps, step < index

/-- A step beyond every mark is marked. -/
theorem mark_of_below {pulses : Pulses} {index : Nat} (h : pulses.Below index) :
    pulses.mark index = ⟨pulses.steps ++ [index]⟩ := by
  have hlast : pulses.steps.getLast?.all (· < index) = true := by
    rw [Option.all_eq_true]
    intro last hlast
    exact decide_eq_true (h last (List.mem_of_getLast? hlast))
  rw [mark, if_pos hlast]

/-- **The second mark of a step is dropped.** -/
theorem mark_mark (pulses : Pulses) (index : Nat) :
    (pulses.mark index).mark index = pulses.mark index := by
  by_cases hlast : pulses.steps.getLast?.all (· < index) = true
  · have hmark : pulses.mark index = ⟨pulses.steps ++ [index]⟩ := by
      rw [mark, if_pos hlast]
    rw [hmark, mark]
    simp
  · have hmark : pulses.mark index = pulses := by
      rw [mark, if_neg hlast]
    rw [hmark, hmark]

/-- What lies below an index lies below the next. -/
theorem Below.succ {pulses : Pulses} {index : Nat} (h : pulses.Below index) :
    pulses.Below (index + 1) :=
  fun step hstep => Nat.lt_succ_of_lt (h step hstep)

/-- A mark on the next step leaves every mark below the one after it. -/
theorem Below.concat {pulses : Pulses} {index : Nat} (h : pulses.Below index) :
    Below ⟨pulses.steps ++ [index]⟩ (index + 1) := by
  refine List.forall_mem_append.mpr ⟨h.succ, ?_⟩
  intro step hstep
  rw [List.mem_singleton.mp hstep]
  exact Nat.lt_succ_self index

end Pulses

/-! ### One step -/

namespace Scan

/-- The two occasions to mark a step amount to one: marked for either reason. -/
theorem pulses_step (scan : Scan) (index : Nat) (event : Event) :
    (scan.step index event).pulses =
      if event.isPulse scan.previous then scan.pulses.mark index else scan.pulses := by
  unfold step Event.isPulse
  cases event.measured? with
  | none => simp
  | some current =>
      -- With both reasons the step is marked twice, and the second mark is dropped.
      cases event.mentionsFeed <;> cases hgrown : scan.previous.any (Event.grows · current) <;>
        simp [hgrown, Pulses.mark_mark]

/-- A finite extrusion replaces the last known one. -/
theorem previous_step (scan : Scan) (index : Nat) (event : Event) :
    (scan.step index event).previous = event.carry scan.previous := by
  unfold step Event.carry
  cases event.measured? <;> rfl

/-- **What one step does** to detection under way, when every mark lies below it. -/
theorem step_eq {scan : Scan} {index : Nat} (h : scan.pulses.Below index) (event : Event) :
    scan.step index event =
      { pulses :=
          if event.isPulse scan.previous then ⟨scan.pulses.steps ++ [index]⟩ else scan.pulses
        previous := event.carry scan.previous } := by
  rw [← Pulses.mark_of_below h, ← pulses_step, ← previous_step]

/-- Every mark lies below the step that comes next. -/
theorem below_step {scan : Scan} {index : Nat} (h : scan.pulses.Below index) (event : Event) :
    (scan.step index event).pulses.Below (index + 1) := by
  rw [step_eq h]
  split
  · exact h.concat
  · exact h.succ

/-! ### The whole run -/

theorem run_cons (scan : Scan) (index : Nat) (event : Event) (rest : List Event) :
    scan.run index (event :: rest) = (scan.step index event).run (index + 1) rest := by
  rw [run, List.zipIdx_cons, List.foldl_cons]
  rfl

/-- **A run appends the pulses of its events** to the marks that it started with. -/
theorem steps_run {scan : Scan} {index : Nat} (h : scan.pulses.Below index)
    (events : List Event) :
    (scan.run index events).pulses.steps =
      scan.pulses.steps ++ feedsFrom index scan.previous events := by
  induction events generalizing scan index with
  | nil => simp [run]
  | cons event rest ih =>
      rw [run_cons, ih (below_step h event), step_eq h, feedsFrom_cons]
      split <;> simp

end Scan

/-- **The loop computes the pulses of the recursion.** -/
theorem Pulses.steps_detect (events : List Event) (baseline : Option Float) :
    (detect events baseline).steps =
      feedsFrom 0 (baseline.filter Float.isFinite) events := by
  have hbelow : empty.Below 0 := by
    intro step hstep
    cases hstep
  exact Scan.steps_run hbelow events

end YarnPreview
