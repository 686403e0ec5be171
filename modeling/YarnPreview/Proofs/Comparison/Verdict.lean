import Mathlib
import YarnPreview.Proofs.Comparison.Containment
import YarnPreview.Proofs.Text.Trimming

/-!
# The verdict behind the sentence

A comparison is told in one sentence, picked by the lengths of lists and by flags.  This
module says what the sentence stands for: a verdict, which is about the two bounds sets and
not about a comparison.  The sentence is the text of the one verdict that holds, and since
different verdicts have different texts, the verdict can be read back from it.

## Main definitions

* `Ends` — the ends at which a plan sticks out
* `Verdict`, `Verdict.text` — what can be said of a plan and a machine, and in which words
* `Verdict.Holds` — when it is true of two bounds sets

## Main statements

* `Text.eq_of_listing_eq` — texts without commas can be told apart in a list
* `Verdict.Kind.eq_of_opening_prefix`, `Verdict.text_injective` — no two verdicts have one text
* `Verdict.exists_holds`, `Verdict.Holds.status_eq` — some verdict holds, and it is the one told
* `Comparison.status_tells_verdict` — the sentence of every two bounds sets

## Raw bounds

The sets may hold NaNs and inverted bounds.  An axis exceeds when one of two comparisons of
doubles says so; those with a NaN say no.  So an axis that exceeds has at least one end at
which the plan sticks out, and the wording that is left over when the lower end does not is
never used for an axis that sticks out nowhere.
-/

namespace YarnPreview

/-! ### Lists of texts -/

namespace Text

/-- The bytes of a text.  Two long texts are told apart by them without being decoded. -/
def encoded (text : String) : List UInt8 :=
  text.toByteArray.data.toList

theorem encoded_append (text rest : String) :
    encoded (text ++ rest) = encoded text ++ encoded rest := by
  simp [encoded, String.toByteArray_append]

/-- A text that can stand in a list set off by commas. -/
def Listable (item : String) : Prop :=
  item ≠ "" ∧ ',' ∉ item.toList

/-- What follows an item in a list: nothing, or a comma and the other items. -/
def listTail : List String → String
  | [] => ""
  | item :: rest => ", " ++ ", ".intercalate (item :: rest)

theorem intercalate_cons (item : String) (rest : List String) :
    ", ".intercalate (item :: rest) = item ++ listTail rest := by
  cases rest with
  | nil => rw [String.intercalate_singleton, listTail, String.append_empty]
  | cons next rest => rw [String.intercalate_cons_cons, listTail, String.append_assoc]

/-- What follows an item tells the other items. -/
theorem intercalate_eq_of_listTail_eq {rest rest' : List String}
    (h : listTail rest = listTail rest') : ", ".intercalate rest = ", ".intercalate rest' := by
  cases rest with
  | nil =>
      cases rest' with
      | nil => rfl
      | cons next' rest' => simp [listTail] at h
  | cons next rest =>
      cases rest' with
      | nil => simp [listTail] at h
      | cons next' rest' => exact (String.append_right_inj ", ").mp h

/-- The first comma of a list comes right after its first item. -/
theorem append_listTail_inj {item other : String} (hitem : ',' ∉ item.toList)
    (hother : ',' ∉ other.toList) {rest rest' : List String}
    (h : item ++ listTail rest = other ++ listTail rest') :
    item = other ∧ listTail rest = listTail rest' := by
  have hfree : ∀ {text : String}, ',' ∉ text.toList →
      ∀ c ∈ text.toList, (c != ',') = true := by
    intro text htext c hc
    rw [bne_iff_ne]
    rintro rfl
    exact htext hc
  have htail : ∀ (rest : List String), ∀ c ∈ (listTail rest).toList.head?, (c != ',') = false := by
    intro rest c hc
    cases rest with
    | nil => cases hc
    | cons next rest =>
        rw [listTail, String.toList_append] at hc
        cases hc
        rfl
  have hlists := congrArg String.toList h
  rw [String.toList_append, String.toList_append] at hlists
  have hfirst := takeWhile_append_boundary (hfree hitem) (htail rest)
  have hfirst' := takeWhile_append_boundary (hfree hother) (htail rest')
  rw [hlists] at hfirst
  exact ⟨String.toList_inj.mp (hfirst.1.symm.trans hfirst'.1),
    String.toList_inj.mp (hfirst.2.symm.trans hfirst'.2)⟩

/-- **Texts without commas can be told apart in a list.** -/
theorem eq_of_listing_eq {items others : List String} (hitems : ∀ item ∈ items, Listable item)
    (hothers : ∀ other ∈ others, Listable other)
    (h : ", ".intercalate items = ", ".intercalate others) : items = others := by
  have hnil : ∀ {item : String} {rest : List String}, Listable item →
      ", ".intercalate (item :: rest) ≠ "" := by
    intro item rest hitem hempty
    rw [intercalate_cons, String.append_eq_empty_iff] at hempty
    exact hitem.1 hempty.1
  induction items generalizing others with
  | nil =>
      cases others with
      | nil => rfl
      | cons other rest' => exact absurd h.symm (hnil (hothers other List.mem_cons_self))
  | cons item rest ih =>
      obtain ⟨hitem, hrest⟩ := List.forall_mem_cons.mp hitems
      cases others with
      | nil => exact absurd h (hnil hitem)
      | cons other rest' =>
          obtain ⟨hother, hrest'⟩ := List.forall_mem_cons.mp hothers
          rw [intercalate_cons, intercalate_cons] at h
          obtain ⟨rfl, htail⟩ := append_listTail_inj hitem.2 hother.2 h
          rw [ih hrest hrest' (intercalate_eq_of_listTail_eq htail)]

end Text

/-! ### Verdicts -/

/-- **The ends at which a plan sticks out** on an axis: the lower one alone, the upper one alone,
or both. -/
inductive Ends where
  | low
  | high
  | both
  deriving DecidableEq

namespace Ends

/-- The ends in words. -/
def text : Ends → String
  | low => "below min"
  | high => "above max"
  | both => "both ends"

theorem text_injective : Function.Injective text := by
  intro ends other h
  revert h
  cases ends <;> cases other <;> decide

/-- The ends are those at which a compared axis overruns. -/
def Of (detail : AxisComparison) : Ends → Prop
  | low => detail.overrunLow = true ∧ detail.overrunHigh = false
  | high => detail.overrunLow = false ∧ detail.overrunHigh = true
  | both => detail.overrunLow = true ∧ detail.overrunHigh = true

/-- An axis is told by its own ends. -/
theorem Of.side_eq {detail : AxisComparison} {ends : Ends} (h : ends.Of detail) :
    detail.side = ends.text := by
  cases ends with
  | low => rw [AxisComparison.side, h.1, h.2]; rfl
  | high => rw [AxisComparison.side, h.1]; rfl
  | both => rw [AxisComparison.side, h.1, h.2]; rfl

/-- An axis that exceeds does so at some end. -/
theorem exists_of {detail : AxisComparison} (h : detail.exceeds = true) :
    ∃ ends : Ends, ends.Of detail := by
  rw [AxisComparison.exceeds, Bool.or_eq_true] at h
  cases hlow : detail.overrunLow with
  | false =>
      rw [hlow] at h
      exact ⟨high, hlow, h.resolve_left Bool.false_ne_true⟩
  | true =>
      cases hhigh : detail.overrunHigh with
      | false => exact ⟨low, hlow, hhigh⟩
      | true => exact ⟨both, hlow, hhigh⟩

end Ends

/-- **What can be said of a plan and a machine.** -/
inductive Verdict where
  /-- Neither side has bounds on any axis. -/
  | nothingKnown
  /-- Only the plan has none. -/
  | noPlan
  /-- Only the machine has none. -/
  | noMachine
  /-- The machine lacks these axes. -/
  | machineLacks (axes : List Axis)
  /-- The plan lacks these axes. -/
  | planLacks (axes : List Axis)
  /-- The plan fits. -/
  | fits
  /-- The plan sticks out on these axes, at these ends. -/
  | exceeds (overruns : List (Axis × Ends))

namespace Verdict

/-- The kinds of verdicts, without the axes they name. -/
inductive Kind where
  | nothingKnown
  | noPlan
  | noMachine
  | machineLacks
  | planLacks
  | fits
  | exceeds
  deriving DecidableEq

/-- Every kind. -/
def Kind.all : List Kind :=
  [nothingKnown, noPlan, noMachine, machineLacks, planLacks, fits, exceeds]

theorem Kind.mem_all (kind : Kind) : kind ∈ all := by
  cases kind <;> decide

/-- How the sentence of a verdict begins. -/
def Kind.opening : Kind → String
  | nothingKnown => Messages.standard.boundsComparison
  | noPlan => Messages.standard.planBounds
  | noMachine => Messages.standard.machineEnvelope
  | machineLacks => Messages.standard.machineAxes
  | planLacks => "Planner bounds incomplete: missing "
  | fits => "Planner bounds fit within the machine travel envelope."
  | exceeds => "Planner exceeds machine travel: "

/-- The kind of a verdict. -/
def kind : Verdict → Kind
  | nothingKnown => .nothingKnown
  | noPlan => .noPlan
  | noMachine => .noMachine
  | machineLacks _ => .machineLacks
  | planLacks _ => .planLacks
  | fits => .fits
  | exceeds _ => .exceeds

/-- An axis with the ends at which the plan sticks out, in words. -/
def overrunText (overrun : Axis × Ends) : String :=
  overrun.1.name ++ " " ++ overrun.2.text

/-- What the sentence of a verdict lists. -/
def items : Verdict → List String
  | machineLacks axes => axes.map Axis.name
  | planLacks axes => axes.map Axis.name
  | exceeds overruns => overruns.map overrunText
  | _ => []

/-- **A verdict in a sentence.** -/
def text (verdict : Verdict) : String :=
  verdict.kind.opening ++ ", ".intercalate verdict.items

/-- **A verdict is true of a plan and a machine.** -/
inductive Holds (planner machine : BoundsSet) : Verdict → Prop
  | nothingKnown (hplanner : ∀ axis, planner.get? axis = none)
      (hmachine : ∀ axis, machine.get? axis = none) : Holds planner machine nothingKnown
  | noPlan (hplanner : ∀ axis, planner.get? axis = none)
      (hmachine : ∃ axis, machine.get? axis ≠ none) : Holds planner machine noPlan
  | noMachine (hplanner : ∃ axis, planner.get? axis ≠ none)
      (hmachine : ∀ axis, machine.get? axis = none) : Holds planner machine noMachine
  /-- Both sides have some bounds, and the machine lacks exactly these axes, whatever the plan
  may lack. -/
  | machineLacks {axes : List Axis} (hplanner : ∃ axis, planner.get? axis ≠ none)
      (hmachine : ∃ axis, machine.get? axis ≠ none) (hsome : axes ≠ [])
      (haxes : Axis.Lists axes fun axis => machine.get? axis = none) :
      Holds planner machine (machineLacks axes)
  /-- The machine lacks none, and the plan exactly these. -/
  | planLacks {axes : List Axis} (hplanner : ∃ axis, planner.get? axis ≠ none)
      (hmachine : ∀ axis, machine.get? axis ≠ none) (hsome : axes ≠ [])
      (haxes : Axis.Lists axes fun axis => planner.get? axis = none) :
      Holds planner machine (planLacks axes)
  | fits (hfits : (Comparison.ofSets planner machine).fits = true) :
      Holds planner machine fits
  /-- Neither side lacks any axis, and the plan sticks out on exactly these, each named once and
  in order, with its ends. -/
  | exceeds {overruns : List (Axis × Ends)} (hplanner : ∀ axis, planner.get? axis ≠ none)
      (hmachine : ∀ axis, machine.get? axis ≠ none) (hsome : overruns ≠ [])
      (haxes : Axis.Lists (overruns.map Prod.fst) fun axis => ∃ detail,
        (Comparison.ofSets planner machine).details.get? axis = some detail ∧
          detail.exceeds = true)
      (hends : ∀ overrun ∈ overruns, ∃ detail,
        (Comparison.ofSets planner machine).details.get? overrun.1 = some detail ∧
          overrun.2.Of detail) :
      Holds planner machine (exceeds overruns)

/-! ### Texts and verdicts -/

theorem name_injective : Function.Injective Axis.name := by
  intro axis other h
  rw [← Option.some.injEq, ← Axis.ofName?_name axis, h, Axis.ofName?_name]

theorem listable_name (axis : Axis) : Text.Listable axis.name := by
  cases axis <;> exact ⟨by decide, by decide⟩

theorem overrunText_injective : Function.Injective overrunText := by
  rintro ⟨axis, ends⟩ ⟨axis', ends'⟩ h
  have hlength : ∀ axis : Axis, (axis.name ++ " ").toList.length = 2 := by
    intro axis
    cases axis <;> decide
  have hlists : (axis.name ++ " ").toList ++ ends.text.toList =
      (axis'.name ++ " ").toList ++ ends'.text.toList := by
    rw [← String.toList_append, ← String.toList_append]
    exact congrArg String.toList h
  obtain ⟨hname, hends⟩ := List.append_inj hlists ((hlength axis).trans (hlength axis').symm)
  rw [String.toList_inj, String.append_left_inj] at hname
  rw [String.toList_inj] at hends
  rw [name_injective hname, Ends.text_injective hends]

theorem listable_overrunText (overrun : Axis × Ends) : Text.Listable (overrunText overrun) := by
  obtain ⟨axis, ends⟩ := overrun
  cases axis <;> cases ends <;> exact ⟨by decide, by decide⟩

/-- What a verdict lists can be told apart. -/
theorem listable_of_mem_items {verdict : Verdict} {item : String} (h : item ∈ verdict.items) :
    Text.Listable item := by
  cases verdict with
  | machineLacks axes =>
      obtain ⟨axis, -, rfl⟩ := List.mem_map.mp h
      exact listable_name axis
  | planLacks axes =>
      obtain ⟨axis, -, rfl⟩ := List.mem_map.mp h
      exact listable_name axis
  | exceeds overruns =>
      obtain ⟨overrun, -, rfl⟩ := List.mem_map.mp h
      exact listable_overrunText overrun
  | _ => cases h

/-- **No sentence begins as one of another kind does.** -/
theorem Kind.eq_of_opening_prefix {kind other : Kind}
    (h : Text.encoded kind.opening <+: Text.encoded other.opening) : kind = other := by
  have hall : ∀ kind ∈ all, ∀ other ∈ all,
      Text.encoded kind.opening <+: Text.encoded other.opening → kind = other := by
    decide +kernel
  exact hall kind (mem_all kind) other (mem_all other) h

/-- A verdict is given by its kind and by what it lists. -/
theorem eq_of_kind_eq {verdict other : Verdict} (hkind : verdict.kind = other.kind)
    (hitems : verdict.items = other.items) : verdict = other := by
  cases verdict with
  | machineLacks axes =>
      cases other with
      | machineLacks axes' =>
          rw [List.map_injective_iff.mpr name_injective hitems]
      | _ => cases hkind
  | planLacks axes =>
      cases other with
      | planLacks axes' =>
          rw [List.map_injective_iff.mpr name_injective hitems]
      | _ => cases hkind
  | exceeds overruns =>
      cases other with
      | exceeds overruns' =>
          rw [List.map_injective_iff.mpr overrunText_injective hitems]
      | _ => cases hkind
  | _ => cases other <;> first | rfl | cases hkind

/-- **No two verdicts have one text**: the beginning tells the kind, the rest what is listed. -/
theorem text_injective : Function.Injective text := by
  intro verdict other h
  have hverdict : Text.encoded verdict.kind.opening <+: Text.encoded verdict.text :=
    ⟨_, (Text.encoded_append _ _).symm⟩
  have hother : Text.encoded other.kind.opening <+: Text.encoded verdict.text := by
    rw [h]
    exact ⟨_, (Text.encoded_append _ _).symm⟩
  have hkind : verdict.kind = other.kind := by
    rcases List.prefix_or_prefix_of_prefix hverdict hother with hshorter | hshorter
    · exact Kind.eq_of_opening_prefix hshorter
    · exact (Kind.eq_of_opening_prefix hshorter).symm
  rw [text, text, hkind, String.append_right_inj] at h
  exact eq_of_kind_eq hkind (Text.eq_of_listing_eq (fun _ => listable_of_mem_items)
    (fun _ => listable_of_mem_items) h)

end Verdict

/-! ### The verdict that is told -/

/-- Two lists that report one property are one list. -/
theorem Axis.Lists.unique {axes others : List Axis} {property : Axis → Prop}
    (h : Axis.Lists axes property) (h' : Axis.Lists others property) : axes = others := by
  have hnodup : Axis.all.Nodup := by decide
  rw [← hnodup.perm_iff_eq_of_sublist h.sublist h'.sublist,
    List.perm_ext_iff_of_nodup (hnodup.sublist h.sublist) (hnodup.sublist h'.sublist)]
  intro axis
  rw [h.mem_iff, h'.mem_iff]

namespace Comparison

/-- The missing axes cover all of them when nothing is known on any axis. -/
theorem coversAll_missing_iff (set : BoundsSet) :
    coversAll set.missing = true ↔ ∀ axis, set.get? axis = none := by
  rw [coversAll, beq_iff_eq, AxisMap.missing, List.length_filter_eq_length_iff]
  simp

theorem coversAll_missing_eq_false_iff (set : BoundsSet) :
    coversAll set.missing = false ↔ ∃ axis, set.get? axis ≠ none := by
  rw [← Bool.not_eq_true, coversAll_missing_iff, not_forall]

/-- No axis is missing when something is known on every one. -/
theorem missing_eq_nil_iff (set : BoundsSet) :
    set.missing = [] ↔ ∀ axis, set.get? axis ≠ none := by
  rw [← List.isEmpty_iff, (lists_missing set).isEmpty_iff]

/-- The sentence of two sides of which something is known. -/
theorem status_ofSets_of_known {planner machine : BoundsSet}
    (hplanner : coversAll planner.missing = false) (hmachine : coversAll machine.missing = false) :
    (ofSets planner machine).status =
      if machine.missing ≠ [] then
        Messages.standard.machineAxes ++ Axis.listing machine.missing
      else if planner.missing ≠ [] then
        "Planner bounds incomplete: missing " ++ Axis.listing planner.missing
      else if (ofSets planner machine).fits = true then
        "Planner bounds fit within the machine travel envelope."
      else
        "Planner exceeds machine travel: " ++
          ", ".intercalate (ofSets planner machine).overruns := by
  rw [status]
  simp only [ofSets, hplanner, hmachine, ne_eq]
  have hflag : ∀ {axes : List Axis}, (!axes.isEmpty) = true ↔ ¬ axes = [] := by simp
  simp only [hflag]

/-- The sentence of two sides that lack nothing. -/
theorem status_ofSets_of_whole {planner machine : BoundsSet} (hplanner : planner.missing = [])
    (hmachine : machine.missing = []) :
    (ofSets planner machine).status =
      if (ofSets planner machine).fits = true then
        "Planner bounds fit within the machine travel envelope."
      else
        "Planner exceeds machine travel: " ++
          ", ".intercalate (ofSets planner machine).overruns := by
  rw [status_ofSets_of_known (by rw [hplanner]; rfl) (by rw [hmachine]; rfl),
    if_neg (not_not.mpr hmachine), if_neg (not_not.mpr hplanner)]

/-- A plan fits when neither side lacks an axis and none exceeds. -/
theorem fits_ofSets_iff_nil (planner machine : BoundsSet) :
    (ofSets planner machine).fits = true ↔
      planner.missing = [] ∧ machine.missing = [] ∧
        (ofSets planner machine).exceedingAxes = [] := by
  simp [ofSets, and_assoc]

end Comparison

namespace Verdict

variable {planner machine : BoundsSet} {verdict : Verdict}

/-- A verdict that lists nothing is told by its opening. -/
theorem text_eq_opening (h : verdict.items = []) : verdict.text = verdict.kind.opening := by
  rw [text, h, String.intercalate_nil, String.append_empty]

/-- The overruns of a comparison are those of the axes listed with their ends. -/
theorem overruns_eq {c : Comparison} {overruns : List (Axis × Ends)}
    (haxes : c.exceedingAxes = overruns.map Prod.fst)
    (hends : ∀ overrun ∈ overruns, ∃ detail, c.details.get? overrun.1 = some detail ∧
      overrun.2.Of detail) :
    c.overruns = overruns.map overrunText := by
  rw [Comparison.overruns, haxes, List.filterMap_map, ← List.filterMap_eq_map]
  refine List.filterMap_congr ?_
  intro overrun hmem
  obtain ⟨detail, hdetail, hof⟩ := hends overrun hmem
  rw [Function.comp_apply, hdetail, Option.map_some, hof.side_eq]
  rfl

/-- **What holds is what is told.** -/
theorem Holds.status_eq (h : Holds planner machine verdict) :
    (Comparison.ofSets planner machine).status = verdict.text := by
  have habsent : ∀ {set : BoundsSet}, (∀ axis, set.get? axis = none) →
      Comparison.coversAll set.missing = true := (Comparison.coversAll_missing_iff _).mpr
  have hknown : ∀ {set : BoundsSet}, (∃ axis, set.get? axis ≠ none) →
      Comparison.coversAll set.missing = false := (Comparison.coversAll_missing_eq_false_iff _).mpr
  cases h with
  | nothingKnown hplanner hmachine =>
      rw [text_eq_opening rfl, Comparison.status]
      simp only [Comparison.ofSets, habsent hplanner, habsent hmachine]
      rfl
  | noPlan hplanner hmachine =>
      rw [text_eq_opening rfl, Comparison.status]
      simp only [Comparison.ofSets, habsent hplanner, hknown hmachine]
      rfl
  | noMachine hplanner hmachine =>
      rw [text_eq_opening rfl, Comparison.status]
      simp only [Comparison.ofSets, hknown hplanner, habsent hmachine]
      rfl
  | @machineLacks axes hplanner hmachine hsome haxes =>
      obtain rfl : axes = machine.missing := haxes.unique (Comparison.lists_missing machine)
      rw [Comparison.status_ofSets_of_known (hknown hplanner) (hknown hmachine), if_pos hsome]
      rfl
  | @planLacks axes hplanner hmachine hsome haxes =>
      obtain rfl : axes = planner.missing := haxes.unique (Comparison.lists_missing planner)
      have hwhole : machine.missing = [] := (Comparison.missing_eq_nil_iff machine).mpr hmachine
      rw [Comparison.status_ofSets_of_known (hknown hplanner) (hknown ⟨.x, hmachine .x⟩),
        if_neg (not_not.mpr hwhole), if_pos hsome]
      rfl
  | fits hfits =>
      obtain ⟨hplanner, hmachine, -⟩ := (Comparison.fits_ofSets_iff_nil planner machine).mp hfits
      rw [Comparison.status_ofSets_of_whole hplanner hmachine, if_pos hfits, text_eq_opening rfl]
      rfl
  | @exceeds overruns hplanner hmachine hsome haxes hends =>
      have hexceeding := (Comparison.lists_exceeding_ofSets planner machine).unique haxes
      have hfits : ¬ (Comparison.ofSets planner machine).fits = true := by
        rw [Comparison.fits_ofSets_iff_nil, hexceeding, List.map_eq_nil_iff]
        exact fun h => hsome h.2.2
      rw [Comparison.status_ofSets_of_whole ((Comparison.missing_eq_nil_iff planner).mpr hplanner)
        ((Comparison.missing_eq_nil_iff machine).mpr hmachine), if_neg hfits,
        overruns_eq hexceeding hends]
      rfl

/-- Every axis of a comparison that exceeds can be named with its ends. -/
theorem exists_overruns (planner machine : BoundsSet) :
    ∃ overruns : List (Axis × Ends),
      overruns.map Prod.fst = (Comparison.ofSets planner machine).exceedingAxes ∧
        ∀ overrun ∈ overruns, ∃ detail,
          (Comparison.ofSets planner machine).details.get? overrun.1 = some detail ∧
            overrun.2.Of detail := by
  have hdetails : ∀ axis ∈ (Comparison.ofSets planner machine).exceedingAxes, ∃ ends : Ends,
      ∃ detail, (Comparison.ofSets planner machine).details.get? axis = some detail ∧
        ends.Of detail := by
    intro axis haxis
    obtain ⟨detail, hdetail, hexceeds⟩ :=
      ((Comparison.lists_exceeding_ofSets planner machine).mem_iff axis).mp haxis
    obtain ⟨ends, hends⟩ := Ends.exists_of hexceeds
    exact ⟨ends, detail, hdetail, hends⟩
  have : Nonempty Ends := ⟨.both⟩
  choose! ends hends using hdetails
  refine ⟨(Comparison.ofSets planner machine).exceedingAxes.map fun axis => (axis, ends axis),
    ?_, ?_⟩
  · rw [List.map_map]
    exact List.map_id _
  · intro overrun hmem
    obtain ⟨axis, haxis, rfl⟩ := List.mem_map.mp hmem
    exact hends axis haxis

/-- **Some verdict holds**, of whatever two bounds sets. -/
theorem exists_holds (planner machine : BoundsSet) : ∃ verdict, Holds planner machine verdict := by
  by_cases hplanner : ∀ axis, planner.get? axis = none
  · by_cases hmachine : ∀ axis, machine.get? axis = none
    · exact ⟨_, .nothingKnown hplanner hmachine⟩
    · exact ⟨_, .noPlan hplanner (not_forall.mp hmachine)⟩
  rw [not_forall] at hplanner
  by_cases hmachine : ∀ axis, machine.get? axis = none
  · exact ⟨_, .noMachine hplanner hmachine⟩
  rw [not_forall] at hmachine
  by_cases hmissing : machine.missing = []
  · have hmachine := (Comparison.missing_eq_nil_iff machine).mp hmissing
    by_cases hmissing' : planner.missing = []
    · by_cases hfits : (Comparison.ofSets planner machine).fits = true
      · exact ⟨_, .fits hfits⟩
      · obtain ⟨overruns, hnames, hends⟩ := exists_overruns planner machine
        have hsome : overruns ≠ [] := by
          rintro rfl
          exact hfits ((Comparison.fits_ofSets_iff_nil planner machine).mpr
            ⟨hmissing', hmissing, hnames.symm⟩)
        have hlists := Comparison.lists_exceeding_ofSets planner machine
        rw [← hnames] at hlists
        exact ⟨_, .exceeds ((Comparison.missing_eq_nil_iff planner).mp hmissing') hmachine hsome
          hlists hends⟩
    · exact ⟨_, .planLacks hplanner hmachine hmissing' (Comparison.lists_missing planner)⟩
  · exact ⟨_, .machineLacks hplanner hmachine hmissing (Comparison.lists_missing machine)⟩

/-- The sentence is the text of a verdict exactly when the verdict holds. -/
theorem status_eq_text_iff (planner machine : BoundsSet) (verdict : Verdict) :
    (Comparison.ofSets planner machine).status = verdict.text ↔ Holds planner machine verdict := by
  constructor
  · intro h
    obtain ⟨told, htold⟩ := exists_holds planner machine
    rw [htold.status_eq] at h
    rwa [← text_injective h]
  · exact Holds.status_eq

end Verdict

/-- **The sentence of a comparison tells one verdict, and a true one**: of any two bounds sets
exactly one verdict holds, the sentence is its text and that of no other, and two comparisons
have one sentence when the same verdict holds of both. -/
theorem Comparison.status_tells_verdict (planner machine : BoundsSet) :
    (∃! verdict, Verdict.Holds planner machine verdict) ∧
      (∀ verdict : Verdict, (ofSets planner machine).status = verdict.text ↔
        Verdict.Holds planner machine verdict) ∧
      ∀ planner' machine' : BoundsSet,
        (ofSets planner machine).status = (ofSets planner' machine').status ↔
          ∀ verdict, Verdict.Holds planner machine verdict ↔
            Verdict.Holds planner' machine' verdict := by
  obtain ⟨told, htold⟩ := Verdict.exists_holds planner machine
  refine ⟨⟨told, htold, ?_⟩, Verdict.status_eq_text_iff planner machine, ?_⟩
  · intro other hother
    exact Verdict.text_injective (hother.status_eq.symm.trans htold.status_eq)
  · intro planner' machine'
    constructor
    · intro hsame verdict
      rw [← Verdict.status_eq_text_iff, ← Verdict.status_eq_text_iff, hsame]
    · intro hsame
      rw [htold.status_eq, ((hsame told).mp htold).status_eq]

end YarnPreview
