import Mathlib
import YarnPreview.Snapshot
import YarnPreview.Proofs.Envelope.Exact

/-!
# What a snapshot depends on

Three records go into a snapshot and six results come out.  This module says which records
reach which results, by comparing two snapshots whose records differ in one or two of the
three.  The plan alone decides about the pulses, the machine and the fallback alone about
the box, and the fallback reaches nothing but the sizes of the box along axes of which the
machine tells none.

## Main definitions

* `Extent.NeedsFallback` — an axis that has no size of its own
* `Snapshot.ofRecords` — the snapshot of three records
* `EnvelopeBox.SameButSizes`, `Snapshot.SameButSizes` — equality except for sizes along some
  axes

## Main statements

* `EnvelopeBox.sameButSizes_ofBounds`, `EnvelopeBox.takesSizes_ofBounds` — what a change of
  fallback does to a box
* `Snapshot.ofRecords_independence` — which records reach which results

## Design notes

**A fallback is judged as a whole and used axis by axis.**  Changing one size in a fallback
can therefore change all three sizes that are drawn; which of them are drawn at all is for
the machine to say.
-/

namespace YarnPreview

/-! ### One axis -/

namespace Extent

/-- **An axis that has no size of its own**: it has no limits, their difference is not
finite, or it is below a thousandth. -/
inductive NeedsFallback : Option Bounds → Prop
  | absent : NeedsFallback none
  | overflowing {b : Bounds} (h : (b.max - b.min).isFinite = false) : NeedsFallback (some b)
  | collapsed {b : Bounds} (h : b.max - b.min < 0.001) : NeedsFallback (some b)

/-- Limits that are there have no size in two cases. -/
theorem needsFallback_some_iff (b : Bounds) :
    NeedsFallback (some b) ↔ (b.max - b.min).isFinite = false ∨ b.max - b.min < 0.001 := by
  constructor
  · rintro (_ | h | h)
    · exact Or.inl h
    · exact Or.inr h
  · rintro (h | h)
    · exact .overflowing h
    · exact .collapsed h

/-- A finite length is below a thousandth or at least a thousandth. -/
theorem thousandth_le_iff {length : Float} (hfinite : length.isFinite = true) :
    0.001 ≤ length ↔ ¬ length < 0.001 := by
  have hthousandth : (0.001 : Float).isFinite = true := by decide
  rw [le_iff_exactValue hthousandth hfinite, lt_iff_exactValue hfinite hthousandth, not_lt]

/-- An axis that needs the fallback has its size. -/
theorem directSize_of_needsFallback {bounds : Option Bounds} (h : NeedsFallback bounds)
    (fallback : Float) : directSize fallback bounds = fallback := by
  cases h with
  | absent => rfl
  | overflowing h =>
      apply if_neg
      rintro ⟨hfinite, -⟩
      rw [h] at hfinite
      cases hfinite
  | collapsed h =>
      apply if_neg
      rintro ⟨hfinite, hle⟩
      exact (thousandth_le_iff hfinite).mp hle h

/-- An axis that does not has one size, whatever the fallback is. -/
theorem directSize_of_not_needsFallback {bounds : Option Bounds} (h : ¬ NeedsFallback bounds)
    (fallback other : Float) : directSize fallback bounds = directSize other bounds := by
  cases bounds with
  | none => exact absurd .absent h
  | some b =>
      rw [needsFallback_some_iff, not_or, Bool.not_eq_false] at h
      have hown : (b.max - b.min).isFinite = true ∧ 0.001 ≤ b.max - b.min :=
        ⟨h.1, (thousandth_le_iff h.1).mpr h.2⟩
      simp only [directSize, if_pos hown]

end Extent

/-- A span that was read from a record stands for itself. -/
theorem TravelSpan.effective_ofRecord (record : Value) :
    (ofRecord record).effective = ofRecord record := by
  have husable : (ofRecord record).isUsable = true := by
    unfold ofRecord
    split
    · exact isUsable_orStandard _
    · exact isUsable_standard
  rw [← orStandard_eq_effective, orStandard, if_pos husable]

/-! ### The box -/

attribute [ext] EnvelopeBox Snapshot

namespace EnvelopeBox

/-- **Two boxes with one centre**, and with one size along every axis that is not free. -/
structure SameButSizes (free : Axis → Prop) (box other : EnvelopeBox) : Prop where
  centerX : box.centerX = other.centerX
  centerY : box.centerY = other.centerY
  centerZ : box.centerZ = other.centerZ
  width : ¬ free .x → box.width = other.width
  depth : ¬ free .y → box.depth = other.depth
  height : ¬ free .z → box.height = other.height

/-- **A box with the sizes of a span** along every free axis. -/
structure TakesSizes (free : Axis → Prop) (box : EnvelopeBox) (span : TravelSpan) : Prop where
  width : free .x → box.width = span.x
  depth : free .y → box.depth = span.y
  height : free .z → box.height = span.z

/-- Two fallbacks draw boxes that differ along axes that need one, at most. -/
theorem sameButSizes_ofBounds (set : BoundsSet) (fallback other : TravelSpan) :
    SameButSizes (fun axis => Extent.NeedsFallback (set.get? axis))
      (ofBounds (some set) fallback) (ofBounds (some set) other) := by
  rw [(follows_ofBounds (some set) fallback).eq, (follows_ofBounds (some set) other).eq]
  exact
    { centerX := rfl
      centerY := rfl
      centerZ := rfl
      width := fun h => Extent.directSize_of_not_needsFallback h _ _
      depth := fun h => Extent.directSize_of_not_needsFallback h _ _
      height := fun h => Extent.directSize_of_not_needsFallback h _ _ }

/-- Along those axes a box has the sizes of the span that the fallback stands for. -/
theorem takesSizes_ofBounds (set : BoundsSet) (fallback : TravelSpan) :
    TakesSizes (fun axis => Extent.NeedsFallback (set.get? axis))
      (ofBounds (some set) fallback) fallback.effective := by
  rw [(follows_ofBounds (some set) fallback).eq]
  exact
    { width := fun h => Extent.directSize_of_needsFallback h _
      depth := fun h => Extent.directSize_of_needsFallback h _
      height := fun h => Extent.directSize_of_needsFallback h _ }

end EnvelopeBox

/-! ### The snapshot -/

namespace Snapshot

/-- **The snapshot of three records.** -/
def ofRecords (payload profile fallback : Value) : Snapshot :=
  compute (.ofRecord payload) profile (.ofRecord fallback)

/-- **Two snapshots that are equal except for sizes along free axes.** -/
structure SameButSizes (free : Axis → Prop) (snapshot other : Snapshot) : Prop where
  comparison : snapshot.comparison = other.comparison
  feeds : snapshot.feeds = other.feeds
  eventCount : snapshot.eventCount = other.eventCount
  envelope : snapshot.envelope.SameButSizes free other.envelope
  status : snapshot.status = other.status
  feedStatus : snapshot.feedStatus = other.feedStatus

/-- When no travel axis is free, the two are equal. -/
theorem SameButSizes.eq {free : Axis → Prop} {snapshot other : Snapshot}
    (h : SameButSizes free snapshot other) (hx : ¬ free .x) (hy : ¬ free .y) (hz : ¬ free .z) :
    snapshot = other := by
  have henvelope : snapshot.envelope = other.envelope :=
    EnvelopeBox.ext (h.envelope.width hx) (h.envelope.depth hy) (h.envelope.height hz)
      h.envelope.centerX h.envelope.centerY h.envelope.centerZ
  exact Snapshot.ext h.comparison h.feeds h.eventCount henvelope h.status h.feedStatus

/-- The box of a snapshot is that of the machine's limits, whether there is a travel axis
among them or not. -/
theorem envelope_ofRecords (payload profile fallback : Value) :
    (ofRecords payload profile fallback).envelope =
      .ofBounds (some (Machine.bounds profile)) (.ofRecord fallback) :=
  EnvelopeBox.ofBounds_hasTravel _ _

/-- **Two fallbacks give the same snapshot** except for the sizes along axes that need
one. -/
theorem sameButSizes_ofRecords (payload profile fallback other : Value) :
    SameButSizes (fun axis => Extent.NeedsFallback ((Machine.bounds profile).get? axis))
      (ofRecords payload profile fallback) (ofRecords payload profile other) where
  comparison := rfl
  feeds := rfl
  eventCount := rfl
  envelope := by
    rw [envelope_ofRecords, envelope_ofRecords]
    exact EnvelopeBox.sameButSizes_ofBounds _ _ _
  status := rfl
  feedStatus := rfl

/-- **Which records reach which results.**  The pulses, the number of events and the
sentence about the flow come from the payload alone.  The box comes from the profile and
the fallback alone.  The fallback reaches only the sizes of the box along axes that need it,
and there the box has the sizes of the span that was read; so with a machine that needs no
fallback the snapshot is one and the same, whatever the fallback is. -/
theorem ofRecords_independence :
    (∀ payload profile profile' fallback fallback' : Value,
      (ofRecords payload profile fallback).feeds = (ofRecords payload profile' fallback').feeds ∧
        (ofRecords payload profile fallback).eventCount =
          (ofRecords payload profile' fallback').eventCount ∧
        (ofRecords payload profile fallback).feedStatus =
          (ofRecords payload profile' fallback').feedStatus) ∧
    (∀ payload payload' profile fallback : Value,
      (ofRecords payload profile fallback).envelope =
        (ofRecords payload' profile fallback).envelope) ∧
    (∀ payload profile fallback fallback' : Value,
      SameButSizes (fun axis => Extent.NeedsFallback ((Machine.bounds profile).get? axis))
          (ofRecords payload profile fallback) (ofRecords payload profile fallback') ∧
        (ofRecords payload profile fallback).envelope.TakesSizes
          (fun axis => Extent.NeedsFallback ((Machine.bounds profile).get? axis))
          (.ofRecord fallback)) ∧
    ∀ payload profile : Value,
      ¬ Extent.NeedsFallback (Machine.bounds profile).x →
        ¬ Extent.NeedsFallback (Machine.bounds profile).y →
          ¬ Extent.NeedsFallback (Machine.bounds profile).z →
            ∀ fallback fallback' : Value,
              ofRecords payload profile fallback = ofRecords payload profile fallback' := by
  refine ⟨?_, ?_, ?_, ?_⟩
  · intro payload profile profile' fallback fallback'
    exact ⟨rfl, rfl, rfl⟩
  · intro payload payload' profile fallback
    rfl
  · intro payload profile fallback fallback'
    have hsizes := EnvelopeBox.takesSizes_ofBounds (Machine.bounds profile) (.ofRecord fallback)
    rw [TravelSpan.effective_ofRecord, ← envelope_ofRecords payload] at hsizes
    exact ⟨sameButSizes_ofRecords payload profile fallback fallback', hsizes⟩
  · intro payload profile hx hy hz fallback fallback'
    exact (sameButSizes_ofRecords payload profile fallback fallback').eq hx hy hz

/-- A machine with a length of its own along `x`, none along `y` and no limits along `z`. -/
def thinMachine : Value :=
  .object [("X", .object [("max", .string "250"), ("min", .number (.integer 0))]),
    ("y", .object [("max", .string "7"), ("min", .number (.integer 7))])]

/-- A machine with a length of its own along every travel axis. -/
def roomyMachine : Value :=
  .object [("x", .object [("max", .string "250"), ("min", .number (.integer 0))]),
    ("y", .object [("max", .string "0.001"), ("min", .null), ("min_mm", .number (.integer 0))]),
    ("z", .object [("high", .string "12"), ("low", .string "-12")])]

/-- A fallback of three usable sizes. -/
def smallSpan : Value :=
  .object [("x", .number (.integer 1)), ("y", .number (.integer 2)), ("z", .string "3")]

/-- A payload with an extrusion bound and three events, of which the first has grown over
that bound and the last says that it feeds. -/
def pulsingPayload : Value :=
  .object [("bounds", .object [("e", .object [("max", .string "9"), ("min", .string "1")])]),
    ("events", .array [.object [("extrusion", .string "1.5")], .null,
      .object [("comment", .string "feed")]])]

/-- The plan pulses twice whatever the machine and the fallback are.  With the thin machine
two fallbacks, one of which is no object, agree on the width and each gives its own depth; with
the roomy machine they give the same snapshot. -/
theorem ofRecords_independence_machines :
    ((ofRecords pulsingPayload thinMachine smallSpan).feeds = ⟨[0, 2]⟩ ∧
      (ofRecords pulsingPayload roomyMachine .null).feeds = ⟨[0, 2]⟩ ∧
      (ofRecords pulsingPayload roomyMachine .null).eventCount = 3) ∧
    (¬ Extent.NeedsFallback (Machine.bounds thinMachine).x ∧
      (ofRecords pulsingPayload thinMachine smallSpan).envelope.width =
        (ofRecords pulsingPayload thinMachine .null).envelope.width) ∧
    (Extent.NeedsFallback (Machine.bounds thinMachine).y ∧
      (ofRecords pulsingPayload thinMachine smallSpan).envelope.depth = 2.0 ∧
      (ofRecords pulsingPayload thinMachine .null).envelope.depth = 320.0) ∧
    (¬ Extent.NeedsFallback (Machine.bounds roomyMachine).x ∧
      ¬ Extent.NeedsFallback (Machine.bounds roomyMachine).y ∧
      ¬ Extent.NeedsFallback (Machine.bounds roomyMachine).z ∧
      ofRecords pulsingPayload roomyMachine smallSpan =
        ofRecords pulsingPayload roomyMachine .null) := by
  have hthin : Machine.bounds thinMachine =
      ⟨some ⟨0.0, 250.0⟩, some ⟨7.0, 7.0⟩, none, none⟩ := by
    decide +kernel
  have hroomy : Machine.bounds roomyMachine =
      ⟨some ⟨0.0, 250.0⟩, some ⟨0.0, 0.001⟩, some ⟨-12.0, 12.0⟩, none⟩ := by
    decide +kernel
  have hspan : TravelSpan.ofRecord smallSpan = ⟨1.0, 2.0, 3.0⟩ := by decide +kernel
  have hwide : ¬ Extent.NeedsFallback (Machine.bounds thinMachine).x := by
    rw [hthin, Extent.needsFallback_some_iff]
    decide
  have hcollapsed : Extent.NeedsFallback (Machine.bounds thinMachine).y := by
    rw [hthin, Extent.needsFallback_some_iff]
    decide
  have hx : ¬ Extent.NeedsFallback (Machine.bounds roomyMachine).x := by
    rw [hroomy, Extent.needsFallback_some_iff]
    decide
  have hy : ¬ Extent.NeedsFallback (Machine.bounds roomyMachine).y := by
    rw [hroomy, Extent.needsFallback_some_iff]
    decide
  have hz : ¬ Extent.NeedsFallback (Machine.bounds roomyMachine).z := by
    rw [hroomy, Extent.needsFallback_some_iff]
    decide
  have hpulses : (ofRecords pulsingPayload thinMachine smallSpan).feeds = ⟨[0, 2]⟩ := by
    decide +kernel
  have hcount : (ofRecords pulsingPayload thinMachine smallSpan).eventCount = 3 := by
    decide +kernel
  obtain ⟨hplan, -, hsizes, hequal⟩ := ofRecords_independence
  obtain ⟨hfeeds, hevents, -⟩ := hplan pulsingPayload thinMachine roomyMachine smallSpan .null
  obtain ⟨hsame, hsmall⟩ := hsizes pulsingPayload thinMachine smallSpan .null
  obtain ⟨-, hstandard⟩ := hsizes pulsingPayload thinMachine .null .null
  rw [hspan] at hsmall
  exact ⟨⟨hpulses, hfeeds.symm.trans hpulses, hevents.symm.trans hcount⟩,
    ⟨hwide, hsame.envelope.width hwide⟩,
    ⟨hcollapsed, hsmall.depth hcollapsed, hstandard.depth hcollapsed⟩,
    hx, hy, hz, hequal pulsingPayload roomyMachine hx hy hz smallSpan .null⟩

end Snapshot

end YarnPreview
