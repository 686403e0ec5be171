import Mathlib
import YarnPreview.Proofs.Feed.Loop
import YarnPreview.Proofs.Text.Letters

/-!
# Which steps are pulses

Detection runs through the events once and carries the last known extrusion.  This
module says which indices come out of it without speaking of the run: an index is
a pulse when its comment says so, or when its extrusion has grown over that of the
nearest earlier step that reported one.

## Main definitions

* `SaysFeed` — the letters of the word, side by side and in either case
* `Measures` — a step reports a finite extrusion
* `Precedes` — the extrusion that a step is compared with
* `lastMeasured` — the extrusion known after a list of events

## Main statements

* `lastMeasured_take_eq_some_iff` — the running value is the one of the nearest
  earlier measurement
* `mem_feedsFrom_iff` — the pulses of a run, each with the running value before it
* `Pulses.detect_exact` — the indices that detection gives

## The invariant

The run is generalised over the index and over the extrusion it starts from; after
`k` events it stands at `index + k` and carries `lastMeasured` of the first `k`.
An event without a finite extrusion, be it absent, NaN or infinite, leaves that
value alone.
-/

namespace YarnPreview

/-! ### The two reasons for a pulse -/

/-- **A comment speaks of feeding**: the letters f, e, e and d stand in it side by
side, each small or capital. -/
def SaysFeed (comment : String) : Prop :=
  ∃ before f e e' d after, comment.toList = before ++ [f, e, e', d] ++ after ∧
    (f = 'f' ∨ f = 'F') ∧ (e = 'e' ∨ e = 'E') ∧ (e' = 'e' ∨ e' = 'E') ∧ (d = 'd' ∨ d = 'D')

/-- **A step reports a finite extrusion.** -/
def Measures (events : List Event) (step : Nat) (x : Float) : Prop :=
  ∃ event, events[step]? = some event ∧ event.extrusion = some x ∧ x.isFinite = true

/-- **The extrusion that a step is compared with**: the one of the nearest earlier
step that reports any, or else the baseline, provided that it is finite. -/
def Precedes (events : List Event) (baseline : Option Float) (step : Nat) (x : Float) : Prop :=
  (∃ earlier, earlier < step ∧ Measures events earlier x ∧
    ∀ between, earlier < between → between < step → ∀ y, ¬ Measures events between y) ∨
  ((∀ earlier, earlier < step → ∀ y, ¬ Measures events earlier y) ∧
    baseline = some x ∧ x.isFinite = true)

/-- Mentioning the feed word is saying it. -/
theorem mentions_feedWord_iff (comment : String) :
    Text.mentions feedWord comment.toList = true ↔ SaysFeed comment := by
  have hf : ∀ c : Char, c.toLower = 'f' ↔ c = 'f' ∨ c = 'F' := fun c => Text.toLower_eq_iff rfl
  have he : ∀ c : Char, c.toLower = 'e' ↔ c = 'e' ∨ c = 'E' := fun c => Text.toLower_eq_iff rfl
  have hd : ∀ c : Char, c.toLower = 'd' ↔ c = 'd' ∨ c = 'D' := fun c => Text.toLower_eq_iff rfl
  rw [Text.mentions_iff]
  constructor
  · rintro ⟨before, letters, after, htext, hletters⟩
    simp only [feedWord, List.map_eq_cons_iff, List.map_eq_nil_iff] at hletters
    obtain ⟨f, -, rfl, hf', e, -, rfl, he', e', -, rfl, he'', d, -, rfl, hd', rfl⟩ := hletters
    exact ⟨before, f, e, e', d, after, htext, (hf f).mp hf', (he e).mp he', (he e').mp he'',
      (hd d).mp hd'⟩
  · rintro ⟨before, f, e, e', d, after, htext, hf', he', he'', hd'⟩
    refine ⟨before, [f, e, e', d], after, htext, ?_⟩
    simp only [List.map_cons, List.map_nil, feedWord, (hf f).mpr hf', (he e).mpr he',
      (he e').mpr he'', (hd d).mpr hd']

namespace Event

/-- The extrusion that a step reports is finite. -/
theorem measured?_eq_some_iff (event : Event) (x : Float) :
    event.measured? = some x ↔ event.extrusion = some x ∧ x.isFinite = true :=
  Option.filter_eq_some_iff

/-- **A pulse has one of two reasons**: its comment, or the growth of its
extrusion. -/
theorem isPulse_iff (previous : Option Float) (event : Event) :
    event.isPulse previous = true ↔
      (∃ comment, event.comment = some comment ∧ SaysFeed comment) ∨
      ∃ x y, event.measured? = some x ∧ previous = some y ∧
        (x - y).isFinite = true ∧ feedTolerance < x - y := by
  simp only [isPulse, mentionsFeed, Bool.or_eq_true, Option.any_eq_true, mentions_feedWord_iff,
    grows, Bool.and_eq_true, decide_eq_true_eq]
  refine or_congr_right ⟨?_, ?_⟩
  · rintro ⟨x, hx, y, hy, hgrows⟩
    exact ⟨x, y, hx, hy, hgrows⟩
  · rintro ⟨x, y, hx, hy, hgrows⟩
    exact ⟨x, hx, y, hy, hgrows⟩

end Event

/-! ### The running extrusion -/

/-- **The extrusion known after a list of events**, from the one known before. -/
def lastMeasured (previous : Option Float) (events : List Event) : Option Float :=
  events.foldl Event.carry previous

@[simp] theorem lastMeasured_nil (previous : Option Float) :
    lastMeasured previous [] = previous := rfl

@[simp] theorem lastMeasured_cons (previous : Option Float) (event : Event)
    (rest : List Event) :
    lastMeasured previous (event :: rest) = lastMeasured (event.carry previous) rest := rfl

/-- One more event of a list: its own extrusion if it measures one, the running
value otherwise. -/
theorem lastMeasured_take_succ (previous : Option Float) (events : List Event) (k : Nat) :
    lastMeasured previous (events.take (k + 1)) =
      ((events[k]?).bind Event.measured?).or (lastMeasured previous (events.take k)) := by
  rw [List.take_add_one, lastMeasured, List.foldl_append]
  cases events[k]? with
  | none => rfl
  | some event => rfl

/-- A step measures an extrusion, by lookup. -/
theorem measures_iff (events : List Event) (step : Nat) (x : Float) :
    Measures events step x ↔ (events[step]?).bind Event.measured? = some x := by
  simp only [Measures, Option.bind_eq_some_iff, Event.measured?_eq_some_iff]

/-- A step that measures is what the next one is compared with: it is the nearest,
and hides all others. -/
theorem precedes_succ_of_measures {events : List Event} {baseline : Option Float} {step : Nat}
    {y : Float} (hy : Measures events step y) (x : Float) :
    Precedes events baseline (step + 1) x ↔ x = y := by
  constructor
  · rintro (⟨earlier, hlt, hx, hnone⟩ | ⟨hnone, -⟩)
    · rcases Nat.lt_succ_iff_lt_or_eq.mp hlt with hlt | rfl
      · exact absurd hy (hnone step hlt (Nat.lt_succ_self step) y)
      · rw [measures_iff] at hx hy
        exact Option.some.inj (hx.symm.trans hy)
    · exact absurd hy (hnone step (Nat.lt_succ_self step) y)
  · rintro rfl
    refine Or.inl ⟨step, Nat.lt_succ_self step, hy, ?_⟩
    intro between hgt hlt
    omega

/-- Past a step that measures nothing, the comparison stays with the same
extrusion. -/
theorem precedes_succ_of_silent {events : List Event} {baseline : Option Float} {step : Nat}
    (hstep : ∀ y, ¬ Measures events step y) (x : Float) :
    Precedes events baseline (step + 1) x ↔ Precedes events baseline step x := by
  constructor
  · rintro (⟨earlier, hlt, hx, hnone⟩ | ⟨hnone, hbaseline⟩)
    · rcases Nat.lt_succ_iff_lt_or_eq.mp hlt with hlt | rfl
      · refine Or.inl ⟨earlier, hlt, hx, ?_⟩
        intro between hgt hlt'
        exact hnone between hgt (by omega)
      · exact absurd hx (hstep x)
    · refine Or.inr ⟨?_, hbaseline⟩
      intro earlier hlt
      exact hnone earlier (by omega)
  · rintro (⟨earlier, hlt, hx, hnone⟩ | ⟨hnone, hbaseline⟩)
    · refine Or.inl ⟨earlier, by omega, hx, ?_⟩
      intro between hgt hlt'
      rcases Nat.lt_succ_iff_lt_or_eq.mp hlt' with hlt' | rfl
      · exact hnone between hgt hlt'
      · exact hstep
    · refine Or.inr ⟨?_, hbaseline⟩
      intro earlier hlt
      rcases Nat.lt_succ_iff_lt_or_eq.mp hlt with hlt | rfl
      · exact hnone earlier hlt
      · exact hstep

/-- **The running value before a step** is the extrusion it is compared with. -/
theorem lastMeasured_take_eq_some_iff (events : List Event) (baseline : Option Float)
    (step : Nat) (x : Float) :
    lastMeasured (baseline.filter Float.isFinite) (events.take step) = some x ↔
      Precedes events baseline step x := by
  induction step with
  | zero => simp [Precedes]
  | succ step ih =>
      rw [lastMeasured_take_succ]
      cases hlast : (events[step]?).bind Event.measured? with
      | some y =>
          rw [precedes_succ_of_measures ((measures_iff _ _ _).mpr hlast), Option.some_or,
            Option.some.injEq, eq_comm]
      | none =>
          have hstep : ∀ y, ¬ Measures events step y := by
            intro y hy
            rw [measures_iff, hlast] at hy
            cases hy
          rw [precedes_succ_of_silent hstep, Option.none_or, ih]

/-! ### The run -/

/-- **The pulses of a run**: the events that are pulses at the running value before
them, by their positions. -/
theorem mem_feedsFrom_iff (index : Nat) (previous : Option Float) (events : List Event)
    (n : Nat) :
    n ∈ feedsFrom index previous events ↔
      ∃ k event, n = index + k ∧ events[k]? = some event ∧
        event.isPulse (lastMeasured previous (events.take k)) = true := by
  induction events generalizing index previous with
  | nil => simp
  | cons event rest ih =>
      have hlater : n ∈ feedsFrom (index + 1) (event.carry previous) rest ↔
          ∃ k later, n = index + (k + 1) ∧ rest[k]? = some later ∧
            later.isPulse (lastMeasured previous ((event :: rest).take (k + 1))) = true := by
        rw [ih]
        simp only [List.take_succ_cons, lastMeasured_cons, Nat.add_assoc, Nat.add_comm 1]
      have hmem : n ∈ feedsFrom index previous (event :: rest) ↔
          n = index ∧ event.isPulse previous = true ∨
            n ∈ feedsFrom (index + 1) (event.carry previous) rest := by
        rw [feedsFrom_cons]
        split
        · next h => simp [h]
        · next h => simp [h]
      rw [hmem, hlater]
      -- Position zero is the first event; every other position is one of the rest.
      constructor
      · rintro (⟨rfl, hpulse⟩ | ⟨k, later, rfl, hget, hpulse⟩)
        · exact ⟨0, event, rfl, rfl, hpulse⟩
        · exact ⟨k + 1, later, rfl, by rwa [List.getElem?_cons_succ], hpulse⟩
      · rintro ⟨k, later, rfl, hget, hpulse⟩
        cases k with
        | zero =>
            cases hget
            exact Or.inl ⟨rfl, hpulse⟩
        | succ k =>
            rw [List.getElem?_cons_succ] at hget
            exact Or.inr ⟨k, later, rfl, hget, hpulse⟩

/-- The pulses of a run start at its index. -/
theorem le_of_mem_feedsFrom {index n : Nat} {previous : Option Float} {events : List Event}
    (h : n ∈ feedsFrom index previous events) : index ≤ n := by
  obtain ⟨k, -, rfl, -⟩ := (mem_feedsFrom_iff _ _ _ _).mp h
  exact Nat.le_add_right index k

/-- **The pulses of a run ascend strictly.** -/
theorem pairwise_feedsFrom (index : Nat) (previous : Option Float) (events : List Event) :
    (feedsFrom index previous events).Pairwise (· < ·) := by
  induction events generalizing index previous with
  | nil => exact List.Pairwise.nil
  | cons event rest ih =>
      rw [feedsFrom_cons]
      split
      · refine List.pairwise_cons.mpr ⟨?_, ih _ _⟩
        intro n hn
        exact Nat.lt_of_succ_le (le_of_mem_feedsFrom hn)
      · exact ih _ _

namespace Pulses

/-- **A step is a pulse** by its event and the extrusion carried to it. -/
theorem mem_steps_detect_iff (events : List Event) (baseline : Option Float) (step : Nat) :
    step ∈ (detect events baseline).steps ↔
      ∃ event, events[step]? = some event ∧ event.isPulse
        (lastMeasured (baseline.filter Float.isFinite) (events.take step)) = true := by
  simp only [steps_detect, mem_feedsFrom_iff, Nat.zero_add, exists_and_left, exists_eq_left']

/-- Every pulse is the index of an event. -/
theorem lt_length_of_mem_detect {events : List Event} {baseline : Option Float} {n : Nat}
    (h : n ∈ (detect events baseline).steps) : n < events.length := by
  obtain ⟨event, hget, -⟩ := (mem_steps_detect_iff events baseline n).mp h
  exact (List.getElem?_eq_some_iff.mp hget).1

/-- The pulses of a plan ascend strictly. -/
theorem pairwise_steps_detect (events : List Event) (baseline : Option Float) :
    (detect events baseline).steps.Pairwise (· < ·) := by
  rw [steps_detect]
  exact pairwise_feedsFrom _ _ _

/-- **The steps that detection gives**, in strictly ascending order: those whose
comment speaks of feeding, and those whose finite extrusion has grown, by a finite
amount above the tolerance, over the nearest earlier finite one or the finite
baseline. -/
theorem detect_exact (events : List Event) (baseline : Option Float) :
    (detect events baseline).steps.Pairwise (· < ·) ∧
      ∀ step, step ∈ (detect events baseline).steps ↔
        (∃ event comment, events[step]? = some event ∧ event.comment = some comment ∧
          SaysFeed comment) ∨
        ∃ x y, Measures events step x ∧ Precedes events baseline step y ∧
          (x - y).isFinite = true ∧ 0.01 < x - y := by
  refine ⟨pairwise_steps_detect events baseline, ?_⟩
  intro step
  simp only [mem_steps_detect_iff, Event.isPulse_iff, lastMeasured_take_eq_some_iff,
    Event.measured?_eq_some_iff]
  constructor
  · rintro ⟨event, hget, ⟨comment, hcomment⟩ | ⟨x, y, hx, hy⟩⟩
    · exact Or.inl ⟨event, comment, hget, hcomment⟩
    · exact Or.inr ⟨x, y, ⟨event, hget, hx⟩, hy⟩
  · rintro (⟨event, comment, hget, hcomment⟩ | ⟨x, y, ⟨event, hget, hx⟩, hy⟩)
    · exact ⟨event, hget, Or.inl ⟨comment, hcomment⟩⟩
    · exact ⟨event, hget, Or.inr ⟨x, y, hx, hy⟩⟩

end Pulses

end YarnPreview
