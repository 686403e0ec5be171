import YarnPreview.Feed.Pulses
import YarnPreview.Messages

/-!
# The feed queue

The pulses that still lie ahead of a step.  Pulses ascend, so all questions are
answered by bisection: find the place where the pulses up to a step end.

## Main definitions

* `settle` — the bisection, on positions
* `Pulses.position` — how many pulses come no later than a step
* `Pulses.contains`, `Pulses.remainingAfter`, `Pulses.upcoming` — the queries
* `Pulses.flowStatus`, `Pulses.upcomingStatus`, `Pulses.queueStatus` — the
  queries in sentences

## Overflow

Indices, positions and limits are sixty-four-bit words.  Two sums can leave
their range, and then a query has no answer: a position plus a limit, and an
index plus one when it is shown to people, who count steps from one.  Both are
errors of type `Overflow`, and so is a run of pulses that leaves the list; the
queries never ask for one.
-/

namespace YarnPreview

/-- **Why a query has no answer**: a sum that does not fit a sixty-four-bit word, or
a run that leaves the list. -/
inductive Overflow where
  /-- The end of a run of pulses: its start plus the limit asked for. -/
  | runEnd (start limit : Nat)
  /-- The number of a step, counted from one. -/
  | stepNumber (index : Nat)
  /-- A run of pulses that ends before it starts or after the list does. -/
  | outside (start stop : Nat)
  deriving DecidableEq, Repr

/-- **Bisection.**  Among the positions from `base` on, `size` of them, the last
one that is `below`, if the positions that are `below` come first; the first
position if none is.  Each round asks about the middle of the window and keeps
the half after it or the half before. -/
def settle (below : Nat → Bool) (base size : Nat) : Nat :=
  if size ≤ 1 then base
  else
    let middle := base + size / 2
    settle below (if below middle then middle else base) (size - size / 2)
  termination_by size
  decreasing_by omega

theorem settle_of_le_one {below : Nat → Bool} {base size : Nat} (h : size ≤ 1) :
    settle below base size = base := by
  unfold settle
  simp [h]

namespace Pulses

/-- Is the pulse at a position no later than a step? -/
def noLater (pulses : Pulses) (step position : Nat) : Bool :=
  (pulses.steps[position]?).any (· ≤ step)

/-- The position at which the search for a step ends. -/
def nearest (pulses : Pulses) (step : Nat) : Nat :=
  settle (pulses.noLater step) 0 pulses.size

/-- **The number of pulses no later than a step**, which is the position of the
first later one. -/
def position (pulses : Pulses) (step : Nat) : Nat :=
  let found := pulses.nearest step
  if pulses.noLater step found then found + 1 else found

/-- Is a step a pulse? -/
def contains (pulses : Pulses) (step : Nat) : Bool :=
  pulses.steps[pulses.nearest step]? == some step

/-- How many pulses come after a step. -/
def remainingAfter (pulses : Pulses) (step : Nat) : Nat :=
  pulses.size - pulses.position step

/-- The run of pulses from one position up to another, if the list has it. -/
def run (pulses : Pulses) (start stop : Nat) : Except Overflow (List Nat) :=
  if start ≤ stop ∧ stop ≤ pulses.size then
    .ok ((pulses.steps.take stop).drop start)
  else
    .error (.outside start stop)

/-- **The next pulses after a step**, at most `limit` of them. -/
def upcoming (pulses : Pulses) (step limit : Nat) : Except Overflow (List Nat) :=
  let start := pulses.position step
  if start + limit < indexLimit then
    pulses.run start (min (start + limit) pulses.size)
  else
    .error (.runEnd start limit)

/-- A step as people count it, from one. -/
def stepLabel (index : Nat) : Except Overflow String :=
  if index + 1 < indexLimit then
    .ok ("#" ++ toString (index + 1))
  else
    .error (.stepNumber index)

/-- How many pulses the sentences look ahead. -/
def lookahead : Nat := 3

/-- The labels of the next few pulses after a step. -/
def nextLabels (pulses : Pulses) (step : Nat) : Except Overflow (List String) :=
  (pulses.upcoming step lookahead).bind fun next => next.mapM stepLabel

/-- **The yarn flow in a sentence**: pulses against the number of steps. -/
def flowStatus (pulses : Pulses) (stepCount : Nat) : String :=
  if stepCount = 0 then Messages.standard.yarnFlow
  else
    "Yarn flow monitor: " ++ toString pulses.size ++ " feed pulses across " ++
      toString stepCount ++ " steps"

/-- **The pulses ahead in a sentence.** -/
def upcomingStatus (pulses : Pulses) (step : Nat) : Except Overflow String :=
  (pulses.nextLabels step).map fun labels =>
    if labels.isEmpty then Messages.standard.yarnUpcoming
    else "Next feed pulses: " ++ ", ".intercalate labels

/-- **The queue in a sentence**: how many pulses of all are left, and the next
few. -/
def queueStatus (pulses : Pulses) (step : Nat) : Except Overflow String :=
  if pulses.isEmpty then .ok Messages.standard.yarnQueue
  else
    (pulses.nextLabels step).map fun labels =>
      if labels.isEmpty then
        "Remaining feed pulses: 0 of " ++ toString pulses.size
      else
        "Remaining feed pulses: " ++ toString (pulses.remainingAfter step) ++ " of " ++
          toString pulses.size ++ " (next " ++ ", ".intercalate labels ++ ")"

/-- Steps are counted from one, and the step asked about is not ahead. -/
example : (Pulses.mk [4, 8, 12, 19]).queueStatus 8 =
    .ok "Remaining feed pulses: 2 of 4 (next #13, #20)" := by cbv

end Pulses

end YarnPreview
