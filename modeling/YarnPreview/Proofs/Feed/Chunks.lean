import Mathlib
import YarnPreview.Proofs.Feed.Detection

/-!
# Detection in chunks

A long plan may be searched for pulses piece by piece.  What one piece has to tell
the next is a single number, the last finite extrusion that it reports; a piece that
reports none passes on what it was told itself.

## Main definitions

* `handedOn` — what a chunk of events tells the next one
* `Event.Silent` — an event that is no pulse and reports no extrusion

## Main statements

* `feedsFrom_append` — a run over two chunks is two runs
* `feedsFrom_add` — a run that starts later gives the same pulses, shifted
* `Pulses.detect_chunks` — detection chunk by chunk, and past a silent event

## Design notes

**The running value is generalised, the result is not.**  `feedsFrom` starts from
any index and any known extrusion, so the two runs are compared by one induction on
the first chunk.  `handedOn` says what the second run starts from without a run:
the last entry of a list.
-/

namespace YarnPreview

/-! ### What a chunk hands on -/

/-- **The extrusion that a chunk hands on**: the last finite one that occurs in it,
or else the baseline, provided that it is finite. -/
def handedOn (baseline : Option Float) (events : List Event) : Option Float :=
  (events.filterMap Event.measured?).getLast?.or (baseline.filter Float.isFinite)

/-- The running value after a chunk is the last measurement in it, and without one
the value before. -/
theorem lastMeasured_eq_getLast? (previous : Option Float) (events : List Event) :
    lastMeasured previous events = (events.filterMap Event.measured?).getLast?.or previous := by
  induction events using List.reverseRecOn with
  | nil => rfl
  | append_singleton events event ih =>
      have hstep : lastMeasured previous (events ++ [event]) =
          event.measured?.or (lastMeasured previous events) := by
        rw [lastMeasured, List.foldl_append]
        rfl
      have hlast : ((events ++ [event]).filterMap Event.measured?).getLast? =
          event.measured?.or (events.filterMap Event.measured?).getLast? := by
        rw [List.filterMap_append, List.getLast?_append]
        cases hmeasured : event.measured? with
        | none => simp [hmeasured]
        | some x => simp [hmeasured]
      rw [hstep, hlast, ih, Option.or_assoc]

/-- What is handed on is the running value of detection after the chunk. -/
theorem handedOn_eq_lastMeasured (baseline : Option Float) (events : List Event) :
    handedOn baseline events = lastMeasured (baseline.filter Float.isFinite) events :=
  (lastMeasured_eq_getLast? _ events).symm

/-- Only finite extrusions are handed on. -/
theorem isFinite_of_handedOn {baseline : Option Float} {events : List Event} {x : Float}
    (h : handedOn baseline events = some x) : x.isFinite = true := by
  rcases Option.or_eq_some_iff.mp h with hlast | ⟨-, hbaseline⟩
  · obtain ⟨event, -, hmeasured⟩ := List.mem_filterMap.mp (List.mem_of_getLast? hlast)
    exact ((event.measured?_eq_some_iff x).mp hmeasured).2
  · exact (Option.filter_eq_some_iff.mp hbaseline).2

/-- So the next chunk, as a baseline, keeps what it is told. -/
theorem filter_handedOn (baseline : Option Float) (events : List Event) :
    (handedOn baseline events).filter Float.isFinite = handedOn baseline events := by
  cases h : handedOn baseline events with
  | none => rfl
  | some x => exact Option.filter_eq_some_iff.mpr ⟨rfl, isFinite_of_handedOn h⟩

/-! ### Runs, one after the other -/

/-- **A run over two chunks is two runs**: the second one starts at the index and at
the extrusion at which the first one stops. -/
theorem feedsFrom_append (index : Nat) (previous : Option Float) (first second : List Event) :
    feedsFrom index previous (first ++ second) =
      feedsFrom index previous first ++
        feedsFrom (index + first.length) (lastMeasured previous first) second := by
  induction first generalizing index previous with
  | nil => rfl
  | cons event rest ih =>
      have hindex : index + (event :: rest).length = index + 1 + rest.length := by
        rw [List.length_cons]
        omega
      rw [List.cons_append, feedsFrom_cons, feedsFrom_cons, ih, lastMeasured_cons, hindex]
      split
      · rw [List.cons_append]
      · rfl

/-- **A run that starts later** gives the same pulses, each shifted by as much. -/
theorem feedsFrom_add (index offset : Nat) (previous : Option Float) (events : List Event) :
    feedsFrom (index + offset) previous events =
      (feedsFrom index previous events).map (· + offset) := by
  induction events generalizing index previous with
  | nil => rfl
  | cons event rest ih =>
      have hrest := ih (index + 1) (event.carry previous)
      rw [Nat.add_right_comm] at hrest
      rw [feedsFrom_cons, feedsFrom_cons, hrest]
      split
      · rw [List.map_cons]
      · rfl

/-! ### Silent events -/

/-- **A silent event**: its comment does not speak of feeding, and its extrusion is
absent or not finite. -/
structure Event.Silent (event : Event) : Prop where
  comment : ∀ comment, event.comment = some comment → ¬ SaysFeed comment
  extrusion : ∀ x, event.extrusion = some x → x.isFinite = false

/-- A silent event measures nothing. -/
theorem Event.Silent.measured? {event : Event} (h : event.Silent) : event.measured? = none := by
  rw [Option.eq_none_iff_forall_ne_some]
  intro x hx
  obtain ⟨hextrusion, hfinite⟩ := (event.measured?_eq_some_iff x).mp hx
  rw [h.extrusion x hextrusion] at hfinite
  cases hfinite

/-- A silent event is no pulse, whatever extrusion is known. -/
theorem Event.Silent.isPulse {event : Event} (h : event.Silent) (previous : Option Float) :
    event.isPulse previous = false := by
  rw [← Bool.not_eq_true, Event.isPulse_iff]
  rintro (⟨comment, hcomment, hsays⟩ | ⟨x, y, hx, -⟩)
  · exact h.comment comment hcomment hsays
  · rw [h.measured?] at hx
    cases hx

/-- A run passes a silent event with nothing but its index changed. -/
theorem feedsFrom_cons_of_silent {event : Event} (h : event.Silent) (index : Nat)
    (previous : Option Float) (rest : List Event) :
    feedsFrom index previous (event :: rest) = feedsFrom (index + 1) previous rest := by
  have hcarry : event.carry previous = previous := by
    rw [Event.carry, h.measured?, Option.none_or]
  rw [feedsFrom_cons, h.isPulse, hcarry]
  rfl

namespace Pulses

/-! ### Detection -/

/-- **Detection over two chunks**: the pulses of the first, and those of the second
from what the first hands on, shifted past it. -/
theorem steps_detect_append (first second : List Event) (baseline : Option Float) :
    (detect (first ++ second) baseline).steps =
      (detect first baseline).steps ++
        (detect second (handedOn baseline first)).steps.map (· + first.length) := by
  simp only [steps_detect]
  rw [feedsFrom_append, filter_handedOn, handedOn_eq_lastMeasured, feedsFrom_add]

/-- **A silent event between two chunks** shifts the pulses of the second by one. -/
theorem steps_detect_insert {event : Event} (h : event.Silent) (before after : List Event)
    (baseline : Option Float) :
    (detect (before ++ event :: after) baseline).steps =
      (detect (before ++ after) baseline).steps.map
        fun step => if step < before.length then step else step + 1 := by
  have hbefore : (detect before baseline).steps.map
      (fun step => if step < before.length then step else step + 1) =
        (detect before baseline).steps := by
    rw [List.map_congr_left (g := id), List.map_id]
    intro step hstep
    exact if_pos (lt_length_of_mem_detect hstep)
  have hafter : (detect (event :: after) (handedOn baseline before)).steps =
      (detect after (handedOn baseline before)).steps.map (· + 1) := by
    rw [steps_detect, steps_detect, feedsFrom_cons_of_silent h, feedsFrom_add]
  rw [steps_detect_append, steps_detect_append, List.map_append, hbefore, hafter,
    List.map_map, List.map_map]
  refine congrArg _ (List.map_congr_left ?_)
  intro step _
  have hpast : ¬ step + before.length < before.length := by omega
  simp only [Function.comp_apply, if_neg hpast]
  omega

/-- **Detection can be done in chunks.**  The pulses of two lists of events, one after
the other, are those of the first followed by those of the second, shifted by the
length of the first; the second is searched from the last finite extrusion of the
first, or from the finite baseline when it has none.  A silent event, wherever it is
inserted, shifts the later pulses by one and changes nothing else. -/
theorem detect_chunks (baseline : Option Float) :
    (∀ first second : List Event,
      (detect (first ++ second) baseline).steps =
        (detect first baseline).steps ++
          (detect second (handedOn baseline first)).steps.map (· + first.length)) ∧
      ∀ (before after : List Event) (event : Event), event.Silent →
        (detect (before ++ event :: after) baseline).steps =
          (detect (before ++ after) baseline).steps.map
            fun step => if step < before.length then step else step + 1 :=
  ⟨fun first second => steps_detect_append first second baseline,
    fun before after _ h => steps_detect_insert h before after baseline⟩

/-- The event that reports a given extrusion and nothing else. -/
def reporting (x : Float) : Event :=
  { Event.empty with extrusion := some x }

/-- An event whose comment comes close to the feed word, and whose extrusion is no
number. -/
def hop : Event :=
  { Event.empty with comment := some "fe ed", extrusion := some notANumber }

/-- A silent event after the first of two measurements moves the pulse at the second
one from index one to index two, and the chunk that it ends hands on the measurement
and not the infinite baseline. -/
theorem detect_chunks_hop :
    hop.Silent ∧
      (detect ([reporting 1.0] ++ hop :: [reporting 1.5]) (some (infinite false))).steps =
        [1].map (fun step => if step < 1 then step else step + 1) ∧
      (detect ([reporting 1.0, hop] ++ [reporting 1.5]) (some (infinite false))).steps =
        [] ++ [0].map (· + 2) := by
  have hsilent : hop.Silent := by
    refine ⟨?_, ?_⟩
    · intro comment hcomment
      cases hcomment
      rw [← mentions_feedWord_iff]
      decide
    · intro x hx
      cases hx
      decide
  obtain ⟨happend, hinsert⟩ := detect_chunks (some (infinite false))
  refine ⟨hsilent, ?_, ?_⟩
  · exact (hinsert [reporting 1.0] [reporting 1.5] hop hsilent).trans (by decide)
  · exact (happend [reporting 1.0, hop] [reporting 1.5]).trans (by decide)

end Pulses

end YarnPreview
