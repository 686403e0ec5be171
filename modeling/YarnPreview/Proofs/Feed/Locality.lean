import Mathlib
import YarnPreview.Proofs.Feed.Chunks

/-!
# Detection is local

Two plans that differ in one event are searched for pulses by two runs that part at that
event and meet again soon after.  What a run carries is a single number, and the next
event with a finite extrusion overwrites it, whatever it was.  So one changed event can
change two answers at most: its own, and that of the first measurement after it.

## Main definitions

* `DifferAt` — two plans with the same events but for one step
* `FirstMeasured` — the first step from a given one on that reports a finite extrusion
* `Pulses.AgreeAt` — two results give the same answer for a step

## Main statements

* `lastMeasured_take_succ_congr`, `lastMeasured_take_congr` — when two runs carry the same
  extrusion: what one event does to them, and what a stretch of events does
* `Pulses.agreeAt_of_not_firstMeasured` — plans with the same events from some step on
  agree from there on, the first measurement apart
* `Pulses.detect_locality` — one changed event, and a changed baseline

## Design notes

**A baseline is a change before the first event.**  Both laws are the same statement about
two runs that carry anything at all when they reach a common stretch of events.  For a
changed event the stretch begins one step later, for a changed baseline it is the whole
plan.
-/

namespace YarnPreview

/-! ### Two plans -/

/-- **Two plans differ in one step at most**: they have as many events, and the same one
at every other step. -/
structure DifferAt (events others : List Event) (changed : Nat) : Prop where
  length_eq : events.length = others.length
  agree : ∀ step, step ≠ changed → events[step]? = others[step]?

/-- Replacing an event changes its step at most. -/
theorem differAt_set (events : List Event) (changed : Nat) (event : Event) :
    DifferAt events (events.set changed event) changed where
  length_eq := List.length_set.symm
  agree _ hstep := (List.getElem?_set_ne hstep.symm).symm

/-- **The first step that reports a finite extrusion**, from a given one on. -/
structure FirstMeasured (events : List Event) (start step : Nat) : Prop where
  start_le : start ≤ step
  measures : ∃ x, Measures events step x
  silent_before : ∀ earlier, start ≤ earlier → earlier < step → ∀ x, ¬ Measures events earlier x

/-- A step that measures and is not the first to do so has an earlier one before it. -/
theorem exists_measures_of_not_firstMeasured {events : List Event} {start step : Nat}
    (hle : start ≤ step) (hmeasures : ∃ x, Measures events step x)
    (h : ¬ FirstMeasured events start step) :
    ∃ earlier x, start ≤ earlier ∧ earlier < step ∧ Measures events earlier x := by
  by_contra hnone
  apply h
  refine ⟨hle, hmeasures, ?_⟩
  intro earlier hstart hlt x hx
  exact hnone ⟨earlier, x, hstart, hlt, hx⟩

/-! ### Two runs -/

section Runs

variable {previous previous' : Option Float} {events others : List Event}

/-- **One event of two runs.**  When both meet the same measurement there, they carry the
same extrusion after it, provided that they did before or that there is one to carry. -/
theorem lastMeasured_take_succ_congr {step : Nat}
    (hevent : (events[step]?).bind Event.measured? = (others[step]?).bind Event.measured?)
    (h : lastMeasured previous (events.take step) = lastMeasured previous' (others.take step) ∨
      ∃ x, Measures events step x) :
    lastMeasured previous (events.take (step + 1)) =
      lastMeasured previous' (others.take (step + 1)) := by
  rw [lastMeasured_take_succ, lastMeasured_take_succ, ← hevent]
  rcases h with hknown | ⟨x, hx⟩
  · rw [hknown]
  · rw [(measures_iff events step x).mp hx, Option.some_or, Option.some_or]

/-- **A stretch of two runs.**  When both meet the same measurements in it, they carry the
same extrusion at its end, provided that they did at its start or that there is a
measurement in between. -/
theorem lastMeasured_take_congr {start step : Nat} (hle : start ≤ step)
    (hevents : ∀ k, start ≤ k → k < step →
      (events[k]?).bind Event.measured? = (others[k]?).bind Event.measured?)
    (h : lastMeasured previous (events.take start) = lastMeasured previous' (others.take start) ∨
      ∃ k x, start ≤ k ∧ k < step ∧ Measures events k x) :
    lastMeasured previous (events.take step) = lastMeasured previous' (others.take step) := by
  induction step, hle using Nat.le_induction with
  | base =>
      rcases h with hknown | ⟨k, x, hstart, hlt, -⟩
      · exact hknown
      · omega
  | succ step hle ih =>
      apply lastMeasured_take_succ_congr (hevents step hle (Nat.lt_succ_self step))
      by_cases hlast : ∃ x, Measures events step x
      · exact Or.inr hlast
      · -- The last event carries nothing over, so the measurement, if any, came before it.
        left
        apply ih fun k hstart hlt => hevents k hstart (Nat.lt_succ_of_lt hlt)
        rcases h with hknown | ⟨k, x, hstart, hlt, hx⟩
        · exact Or.inl hknown
        · rcases Nat.lt_succ_iff_lt_or_eq.mp hlt with hlt | rfl
          · exact Or.inr ⟨k, x, hstart, hlt, hx⟩
          · exact absurd ⟨x, hx⟩ hlast

end Runs

/-- An event that measures nothing is a pulse by its comment or not at all. -/
theorem Event.isPulse_congr_of_silent {event : Event} (h : event.measured? = none)
    (previous previous' : Option Float) : event.isPulse previous = event.isPulse previous' := by
  rw [isPulse, isPulse, h]
  rfl

namespace Pulses

/-! ### Two results -/

/-- **Two results agree on a step**: it is a pulse in both or in neither. -/
def AgreeAt (pulses others : Pulses) (step : Nat) : Prop :=
  step ∈ pulses.steps ↔ step ∈ others.steps

section Results

variable {events others : List Event} {baseline baseline' : Option Float} {start step : Nat}

/-- Two runs that meet the same event with the same extrusion agree on it. -/
theorem agreeAt_of_lastMeasured_eq (hevent : events[step]? = others[step]?)
    (hknown : lastMeasured (baseline.filter Float.isFinite) (events.take step) =
      lastMeasured (baseline'.filter Float.isFinite) (others.take step)) :
    AgreeAt (detect events baseline) (detect others baseline') step := by
  show step ∈ _ ↔ step ∈ _
  rw [mem_steps_detect_iff, mem_steps_detect_iff, hevent, hknown]

/-- Two runs that meet the same event agree on it, whatever they carry, when it measures
nothing. -/
theorem agreeAt_of_silent (hevent : events[step]? = others[step]?)
    (hsilent : ∀ x, ¬ Measures events step x) :
    AgreeAt (detect events baseline) (detect others baseline') step := by
  show step ∈ _ ↔ step ∈ _
  rw [mem_steps_detect_iff, mem_steps_detect_iff, ← hevent]
  refine exists_congr fun event => and_congr_right fun hget => ?_
  have hmeasured : event.measured? = none := by
    rw [Option.eq_none_iff_forall_ne_some]
    intro x hx
    apply hsilent x
    rw [measures_iff, hget]
    exact hx
  rw [Event.isPulse_congr_of_silent hmeasured]

/-- **Plans with the same events from some step on** agree from there on, except possibly
on the first measurement: until then nothing looks at what the runs carry, and after it
they carry the same. -/
theorem agreeAt_of_not_firstMeasured (hle : start ≤ step)
    (hevents : ∀ k, start ≤ k → events[k]? = others[k]?)
    (h : ¬ FirstMeasured events start step) :
    AgreeAt (detect events baseline) (detect others baseline') step := by
  by_cases hmeasures : ∃ x, Measures events step x
  · apply agreeAt_of_lastMeasured_eq (hevents step hle)
    apply lastMeasured_take_congr hle
    · intro k hstart _
      rw [hevents k hstart]
    · exact Or.inr (exists_measures_of_not_firstMeasured hle hmeasures h)
  · exact agreeAt_of_silent (hevents step hle) (not_exists.mp hmeasures)

/-- **Plans with the same measurements up to a step** agree on it, if it has the same event
in both. -/
theorem agreeAt_of_measured_eq (hevent : events[step]? = others[step]?)
    (hmeasured : ∀ k, k < step →
      (events[k]?).bind Event.measured? = (others[k]?).bind Event.measured?) :
    AgreeAt (detect events baseline) (detect others baseline) step := by
  apply agreeAt_of_lastMeasured_eq hevent
  apply lastMeasured_take_congr (Nat.zero_le step)
  · intro k _ hlt
    exact hmeasured k hlt
  · exact Or.inl rfl

end Results

/-- **Detection is local.**  Changing one event of a plan changes the answer for that step
and for the first later step with a finite extrusion, at most, and for its own step only
when its extrusion stays the same.  Changing the baseline changes the answer for the first
step with a finite extrusion, at most. -/
theorem detect_locality :
    (∀ (events others : List Event) (changed : Nat) (baseline : Option Float),
      DifferAt events others changed →
        (∀ step, step ≠ changed → ¬ FirstMeasured events (changed + 1) step →
          AgreeAt (detect events baseline) (detect others baseline) step) ∧
        ((events[changed]?).map Event.extrusion = (others[changed]?).map Event.extrusion →
          ∀ step, step ≠ changed →
            AgreeAt (detect events baseline) (detect others baseline) step)) ∧
      ∀ (events : List Event) (baseline baseline' : Option Float) (step : Nat),
        ¬ FirstMeasured events 0 step →
          AgreeAt (detect events baseline) (detect events baseline') step := by
  refine ⟨?_, ?_⟩
  · intro events others changed baseline hdiffer
    refine ⟨?_, ?_⟩
    · intro step hstep hfirst
      rcases Nat.lt_or_gt_of_ne hstep with hbefore | hafter
      · -- Before the change the two runs are one.
        apply agreeAt_of_measured_eq (hdiffer.agree step hstep)
        intro k hlt
        rw [hdiffer.agree k (by omega)]
      · apply agreeAt_of_not_firstMeasured hafter _ hfirst
        intro k hstart
        exact hdiffer.agree k (by omega)
    · intro hextrusion step hstep
      apply agreeAt_of_measured_eq (hdiffer.agree step hstep)
      intro k _
      by_cases hk : k = changed
      · subst hk
        have hmeasured : ∀ event? : Option Event, event?.bind Event.measured? =
            (event?.map Event.extrusion).bind fun extrusion => extrusion.filter Float.isFinite := by
          intro event?
          cases event? <;> rfl
        rw [hmeasured, hmeasured, hextrusion]
      · rw [hdiffer.agree k hk]
  · intro events baseline baseline' step hfirst
    exact agreeAt_of_not_firstMeasured (Nat.zero_le step) (fun _ _ => rfl) hfirst

/-- Four measurements, the second of which stands out, with an empty event between the
second and the third. -/
def spike : List Event :=
  [reporting 1.0, reporting 5.0, .empty, reporting 1.5, reporting 2.0]

/-- Without its second measurement the plan loses the pulse there and gains one at the next
measurement, past the empty event; the last step is a pulse all the same.  A comment on the
third measurement adds a pulse there and nowhere else, and a baseline adds one at the first
step. -/
theorem detect_locality_spike :
    (DifferAt spike (spike.set 1 .empty) 1 ∧ ¬ FirstMeasured spike 2 4 ∧
      AgreeAt (detect spike none) (detect (spike.set 1 .empty) none) 4) ∧
    ((spike[3]?).map Event.extrusion = some (some 1.5) ∧
      AgreeAt (detect spike none)
        (detect (spike.set 3 { reporting 1.5 with comment := some "Feed" }) none) 4) ∧
    (¬ FirstMeasured spike 0 1 ∧ AgreeAt (detect spike none) (detect spike (some 0.0)) 1) ∧
    (detect spike none).steps = [1, 4] ∧ (detect (spike.set 1 .empty) none).steps = [3, 4] ∧
    (detect spike (some 0.0)).steps = [0, 1, 4] := by
  obtain ⟨hevent, hbaseline⟩ := detect_locality
  have hthird : ¬ FirstMeasured spike 2 4 := by
    intro h
    exact h.silent_before 3 (by omega) (by omega) 1.5 ⟨reporting 1.5, rfl, rfl, by decide⟩
  have hfirst : ¬ FirstMeasured spike 0 1 := by
    intro h
    exact h.silent_before 0 (by omega) (by omega) 1.0 ⟨reporting 1.0, rfl, rfl, by decide⟩
  refine ⟨⟨differAt_set _ _ _, hthird, ?_⟩, ⟨rfl, ?_⟩, ⟨hfirst, ?_⟩, ?_, ?_, ?_⟩
  · exact (hevent _ _ 1 none (differAt_set _ _ _)).1 4 (by omega) hthird
  · exact (hevent _ _ 3 none (differAt_set _ _ _)).2 rfl 4 (by omega)
  · exact hbaseline spike none (some 0.0) 1 hfirst
  · decide
  · decide
  · decide

end Pulses

end YarnPreview
