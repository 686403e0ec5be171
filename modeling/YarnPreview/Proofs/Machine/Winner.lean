import Mathlib
import YarnPreview.Machine
import YarnPreview.Proofs.Bounds.Resolution
import YarnPreview.Proofs.Text.Bytes
import YarnPreview.Proofs.Text.Letters
import YarnPreview.Proofs.Value.Ordered

/-!
# The winning entry of a machine axis

A profile may spell one axis in several ways, and its record keeps one entry for
them all.  Which one is decided by a loop that inserts and overwrites as it meets
the names.  This module says who wins without the loop: the entry already spelled
in small letters, and failing that the entry with the smallest name.

## Main definitions

* `Machine.HasAxes` — where a profile keeps its axes
* `Machine.Wins` — the entry that stands for an axis
* `Machine.Adapts` — what the record holds in place of an entry
* `Machine.Collects`, `Machine.RecordOf` — a record holds the winners of some axes, or
  those of a profile
* `Machine.winner?` — the winner by lookup, to which the loop is compared

## Main statements

* `Machine.get?_adaptAxes` — the loop finds the winner
* `Machine.collects_adaptAxes` — the record of ordered axes holds their winners
* `Machine.recordOf_boundsRecord` — the record of a profile, and the bounds read off it

## Design notes

**Order of names.**  That the smallest name wins rests on the fields of a profile
being visited in ascending order, which is `Value.Ordered`.  The rule for the entry
spelled in small letters does not: `get?_adaptAxes` holds for axes in any order, as
long as no name occurs twice.
-/

namespace YarnPreview.Machine

/-! ### The rules -/

/-- **A profile keeps its axes** in its field `axes` when that holds an object;
otherwise the profile is itself the object of its axes. -/
inductive HasAxes : Value → Fields Value → Prop
  | nested {profile : Value} {axes : Fields Value}
      (h : profile.field? "axes" = some (.object axes)) : HasAxes profile axes
  | bare {axes : Fields Value} (h : ∀ inner, axes.get? "axes" ≠ some (.object inner)) :
      HasAxes (.object axes) axes

/-- **The entry that stands for a name in small letters**: the one under that very
name, and if there is none, the one under the smallest name that lowers to it. -/
inductive Wins (axes : Fields Value) (key : String) (entry : Value) : Prop
  | exact (hkey : Text.lowercase key = key) (hentry : axes.get? key = some entry)
  | smallest (hkey : key ∉ axes.names) (name : String) (hname : Text.lowercase name = key)
      (hentry : axes.get? name = some entry)
      (hleast : ∀ other ∈ axes.names, Text.lowercase other = key → other ≠ name →
        Text.bytes name < Text.bytes other)

/-- An entry has travel limits: both of its fields for them are present and not
null. -/
def HasTravel (entry lower upper : Value) : Prop :=
  (entry.field? "travel_min_mm" = some lower ∧ lower.isNull = false) ∧
    entry.field? "travel_max_mm" = some upper ∧ upper.isNull = false

/-- **What stands in the record for an entry**: its travel limits as bounds, or else
the entry itself. -/
inductive Adapts (entry : Value) : Value → Prop
  | travel {lower upper : Value} (h : HasTravel entry lower upper) :
      Adapts entry (.object [("max", upper), ("min", lower)])
  | unchanged (h : ∀ lower upper, ¬ HasTravel entry lower upper) : Adapts entry entry

/-- **A record holds the winners of some axes**: one field for each name in small
letters that a name of the axes lowers to, and in it what stands for the winner. -/
structure Collects (axes record : Fields Value) : Prop where
  ascending : record.Ascending
  mem_names_iff : ∀ key, key ∈ record.names ↔ ∃ name ∈ axes.names, Text.lowercase name = key
  winner : ∀ key ∈ record.names, ∃! entry, Wins axes key entry
  get?_eq_some_iff : ∀ key value,
    record.get? key = some value ↔ ∃ entry, Wins axes key entry ∧ Adapts entry value

/-- **The record of a profile**: the winners of its axes, and null when the profile
is no object. -/
inductive RecordOf (profile : Value) : Value → Prop
  | null (h : ∀ fields, profile ≠ .object fields) : RecordOf profile .null
  | object {axes record : Fields Value} (haxes : HasAxes profile axes)
      (hrecord : Collects axes record) : RecordOf profile (.object record)

/-- The winner of a name, once adapted, describes bounds. -/
def GivesBounds (axes : Fields Value) (key : String) (b : Bounds) : Prop :=
  ∃ entry value, Wins axes key entry ∧ Adapts entry value ∧ Bounds.Describes value b

/-! ### Reading a profile -/

/-- The axes that are read are those that the profile has. -/
theorem axes?_eq_some_iff (profile : Value) (axes : Fields Value) :
    axes? profile = some axes ↔ HasAxes profile axes := by
  have hinner : ∀ inner, (profile.field? "axes").bind Value.fields? = some inner ↔
      profile.field? "axes" = some (.object inner) := by
    intro inner
    simp only [Option.bind_eq_some_iff, Value.fields?_eq_some_iff, exists_eq_right]
  constructor
  · intro h
    rcases Option.or_eq_some_iff.mp h with h | ⟨hnone, h⟩
    · exact .nested ((hinner axes).mp h)
    · obtain rfl := Value.fields?_eq_some_iff.mp h
      refine .bare ?_
      intro inner hget
      rw [(hinner inner).mpr hget] at hnone
      cases hnone
  · rintro (h | h)
    · exact Option.or_eq_some_iff.mpr (Or.inl ((hinner axes).mpr h))
    · refine Option.or_eq_some_iff.mpr (Or.inr ⟨?_, rfl⟩)
      rw [Option.eq_none_iff_forall_ne_some]
      intro inner hbind
      exact h inner ((hinner inner).mp hbind)

/-- A profile that is no object has no axes. -/
theorem axes?_eq_none_iff (profile : Value) :
    axes? profile = none ↔ ∀ fields, profile ≠ .object fields := by
  cases profile <;> simp [axes?, Value.field?, Value.fields?]

/-- The axes of a profile in order are in order. -/
theorem HasAxes.ascending {profile : Value} {axes : Fields Value} (h : HasAxes profile axes)
    (hordered : profile.Ordered) : axes.Ascending := by
  cases h with
  | nested h => exact (hordered.field? h).ascending
  | bare _ => exact hordered.ascending

/-- A field that is defined is present and not null. -/
theorem definedField?_eq_some_iff (entry : Value) (name : String) (value : Value) :
    definedField? entry name = some value ↔
      entry.field? name = some value ∧ value.isNull = false := by
  rw [definedField?, Option.filter_eq_some_iff, Bool.not_eq_true']

/-- Two travel limits under their new names; fields ascend, so `max` is first. -/
theorem ofFields_limits (lower upper : Value) :
    Value.ofFields [("min", lower), ("max", upper)] =
      .object [("max", upper), ("min", lower)] := by
  have hlt : "max" < "min" := by decide
  simp only [Value.ofFields, Fields.ofList, List.foldl, Fields.insert, if_pos hlt]

/-- Travel limits take the place of their entry. -/
theorem adaptEntry_of_hasTravel {entry lower upper : Value} (h : HasTravel entry lower upper) :
    adaptEntry entry = .object [("max", upper), ("min", lower)] := by
  have hlower := (definedField?_eq_some_iff _ _ _).mpr h.1
  have hupper := (definedField?_eq_some_iff _ _ _).mpr h.2
  rw [adaptEntry, hlower, hupper]
  exact ofFields_limits lower upper

/-- Without travel limits an entry stays as it is. -/
theorem adaptEntry_of_not_hasTravel {entry : Value}
    (h : ∀ lower upper, ¬ HasTravel entry lower upper) : adaptEntry entry = entry := by
  unfold adaptEntry
  split
  · next lower upper hlower hupper =>
      exact absurd ⟨(definedField?_eq_some_iff _ _ _).mp hlower,
        (definedField?_eq_some_iff _ _ _).mp hupper⟩ (h lower upper)
  · rfl

/-- **Adapting an entry** gives the one value that stands for it. -/
theorem adaptEntry_eq_iff (entry value : Value) :
    adaptEntry entry = value ↔ Adapts entry value := by
  constructor
  · rintro rfl
    by_cases htravel : ∃ lower upper, HasTravel entry lower upper
    · obtain ⟨lower, upper, h⟩ := htravel
      rw [adaptEntry_of_hasTravel h]
      exact .travel h
    · simp only [not_exists] at htravel
      rw [adaptEntry_of_not_hasTravel htravel]
      exact .unchanged htravel
  · intro h
    cases h with
    | travel h => exact adaptEntry_of_hasTravel h
    | unchanged h => exact adaptEntry_of_not_hasTravel h

/-! ### The loop -/

/-- **One more entry**: it takes its lowered name when that is its own name or is
still free. -/
theorem get?_addEntry (record : Fields Value) (name key : String) (entry : Value) :
    (addEntry record name entry).get? key =
      if key = Text.lowercase name ∧ (key = name ∨ record.get? key = none) then
        some (adaptEntry entry)
      else record.get? key := by
  simp only [addEntry, Option.isNone_iff_eq_none]
  by_cases hkey : key = Text.lowercase name
  · subst hkey
    by_cases htaken : Text.lowercase name = name ∨ record.get? (Text.lowercase name) = none
    · rw [if_pos htaken, Fields.get?_insert, if_pos rfl, if_pos ⟨rfl, htaken⟩]
    · simp [htaken]
  · have hother : ¬ (key = Text.lowercase name ∧ (key = name ∨ record.get? key = none)) := by
      intro h
      exact hkey h.1
    rw [if_neg hother]
    split
    · rw [Fields.get?_insert, if_neg hkey]
    · rfl

/-- One more entry brings its lowered name into the record, and no other. -/
theorem mem_names_addEntry (record : Fields Value) (name key : String) (entry : Value) :
    key ∈ (addEntry record name entry).names ↔
      key = Text.lowercase name ∨ key ∈ record.names := by
  simp only [addEntry]
  split
  · exact Fields.mem_names_insert record (Text.lowercase name) key (adaptEntry entry)
  · next h =>
      have hthere : Text.lowercase name ∈ record.names := by
        simp only [not_or, Option.isNone_iff_eq_none] at h
        exact (Fields.mem_names_iff _ _).mpr (Option.ne_none_iff_exists'.mp h.2)
      constructor
      · exact Or.inr
      · rintro (rfl | hkey)
        · exact hthere
        · exact hkey

/-- One more entry keeps the record in order. -/
theorem ascending_addEntry {record : Fields Value} (h : record.Ascending) (name : String)
    (entry : Value) : (addEntry record name entry).Ascending := by
  simp only [addEntry]
  split
  · exact Fields.ascending_insert h _ _
  · exact h

/-- The loop, one entry further. -/
theorem adaptAxes_concat (axes : Fields Value) (field : String × Value) :
    adaptAxes (axes ++ [field]) = addEntry (adaptAxes axes) field.1 field.2 := by
  rw [adaptAxes, List.foldl_append]
  rfl

/-- The record of some axes is in order, whatever the order of the axes. -/
theorem ascending_adaptAxes (axes : Fields Value) : (adaptAxes axes).Ascending := by
  induction axes using List.reverseRecOn with
  | nil => exact List.Pairwise.nil
  | append_singleton axes field ih =>
      rw [adaptAxes_concat]
      exact ascending_addEntry ih field.1 field.2

/-- **The names of the record** are the lowered names of the axes. -/
theorem mem_names_adaptAxes (axes : Fields Value) (key : String) :
    key ∈ (adaptAxes axes).names ↔ ∃ name ∈ axes.names, Text.lowercase name = key := by
  induction axes using List.reverseRecOn with
  | nil => simp [Fields.names]
  | append_singleton axes field ih =>
      rw [adaptAxes_concat, mem_names_addEntry, ih]
      simp only [Fields.names, List.map_append, List.mem_append, List.map_singleton,
        List.mem_singleton]
      constructor
      · rintro (rfl | ⟨name, hname, rfl⟩)
        · exact ⟨field.1, Or.inr rfl, rfl⟩
        · exact ⟨name, Or.inl hname, rfl⟩
      · rintro ⟨name, hname | rfl, rfl⟩
        · exact Or.inr ⟨name, hname, rfl⟩
        · exact Or.inl rfl

/-- **The loop keeps to entries of the axes**, each of them adapted. -/
theorem exists_mem_of_mem_adaptAxes {axes : Fields Value} {field : String × Value}
    (h : field ∈ adaptAxes axes) : ∃ source ∈ axes, Adapts source.2 field.2 := by
  induction axes using List.reverseRecOn with
  | nil => cases h
  | append_singleton axes last ih =>
      have hearlier : field ∈ adaptAxes axes →
          ∃ source ∈ axes ++ [last], Adapts source.2 field.2 := by
        intro hfield
        obtain ⟨source, hsource, hadapts⟩ := ih hfield
        exact ⟨source, List.mem_append_left [last] hsource, hadapts⟩
      simp only [adaptAxes_concat, addEntry] at h
      split at h
      · rcases Fields.eq_or_mem_of_mem_insert h with rfl | h
        · exact ⟨last, List.mem_append_right axes (List.mem_singleton_self last),
            (adaptEntry_eq_iff _ _).mp rfl⟩
        · exact hearlier h
      · exact hearlier h

/-! ### The winner -/

/-- **The entry that wins a name in small letters**: the one under that name, or else
the first one whose name lowers to it. -/
def winner? (axes : Fields Value) (key : String) : Option Value :=
  (axes.get? key).or
    ((axes.find? fun field => Text.lowercase field.1 = key).map Prod.snd)

/-- A new entry under the very name wins, whoever won before. -/
theorem winner?_concat_self {axes : Fields Value} {field : String × Value}
    (h : field.1 ∉ axes.names) : winner? (axes ++ [field]) field.1 = some field.2 := by
  have hnone : axes.get? field.1 = none := (Fields.get?_eq_none_iff _ _).mpr h
  simp [winner?, Fields.get?_append, hnone, Fields.get?_cons]

/-- A new entry under another name wins only what nobody has won. -/
theorem winner?_concat_of_ne {axes : Fields Value} {field : String × Value} {key : String}
    (h : key ≠ field.1) :
    winner? (axes ++ [field]) key =
      if Text.lowercase field.1 = key then (winner? axes key).or (some field.2)
      else winner? axes key := by
  have hget : Fields.get? (axes ++ [field]) key = axes.get? key := by
    rw [Fields.get?_append, Fields.get?_cons, if_neg h, Fields.get?_nil, Option.or_none]
  rw [winner?, winner?, hget, List.find?_append, Option.map_or, ← Option.or_assoc]
  by_cases hlower : Text.lowercase field.1 = key
  · rw [if_pos hlower, List.find?_singleton, if_pos (decide_eq_true hlower), Option.map_some]
  · simp [hlower]

/-- **The loop finds the winner.**  The induction adds the last entry: it overwrites
under its own name, and under another it is taken only when nothing was there. -/
theorem get?_adaptAxes {axes : Fields Value} (hnodup : axes.names.Nodup) {key : String}
    (hkey : Text.lowercase key = key) :
    (adaptAxes axes).get? key = (winner? axes key).map adaptEntry := by
  induction axes using List.reverseRecOn with
  | nil => rfl
  | append_singleton axes field ih =>
      have hsplit : (Fields.names axes ++ [field.1]).Nodup := by
        simpa [Fields.names] using hnodup
      have hfresh : field.1 ∉ Fields.names axes := by
        intro hmem
        exact List.disjoint_of_nodup_append hsplit hmem (List.mem_singleton_self _)
      rw [adaptAxes_concat, get?_addEntry, ih (List.Nodup.of_append_left hsplit)]
      -- Overwriting, filling a gap, and leaving the record alone.
      by_cases hself : key = field.1
      · subst hself
        rw [if_pos ⟨hkey.symm, Or.inl rfl⟩, winner?_concat_self hfresh, Option.map_some]
      · rw [winner?_concat_of_ne hself]
        by_cases hlower : Text.lowercase field.1 = key
        · rw [if_pos hlower]
          cases winner? axes key with
          | none => simp [hlower]
          | some entry => simp [hself]
        · rw [if_neg hlower, if_neg fun h => hlower h.1.symm]

/-- The first entry whose name lowers to a key is the one with the smallest name. -/
theorem firstSpelling_eq_some_iff {axes : Fields Value} (h : axes.Ascending) (key : String)
    (entry : Value) :
    (axes.find? fun field => Text.lowercase field.1 = key).map Prod.snd = some entry ↔
      ∃ name, Text.lowercase name = key ∧ axes.get? name = some entry ∧
        ∀ other ∈ axes.names, Text.lowercase other = key → other ≠ name →
          Text.bytes name < Text.bytes other := by
  simp only [Option.map_eq_some_iff, Fields.find?_eq_some_iff h, decide_eq_true_eq,
    Fields.get?_eq_some_iff_mem h, Text.bytes_lt_bytes_iff]
  constructor
  · rintro ⟨⟨name, value⟩, ⟨hmem, hlower, hleast⟩, rfl⟩
    refine ⟨name, hlower, hmem, ?_⟩
    intro other hother hlower' hne
    obtain ⟨field, hfield, rfl⟩ := List.mem_map.mp hother
    exact hleast field hfield hlower' fun heq => hne (congrArg Prod.fst heq)
  · rintro ⟨name, hlower, hmem, hleast⟩
    refine ⟨(name, entry), ⟨hmem, hlower, ?_⟩, rfl⟩
    intro other hother hlower' hne
    refine hleast other.1 (List.mem_map_of_mem hother) hlower' fun heq => hne ?_
    exact Fields.eq_of_mem_of_name_eq h hmem hother heq

/-- **The winner, by its rule.** -/
theorem winner?_eq_some_iff {axes : Fields Value} (h : axes.Ascending) {key : String}
    (hkey : Text.lowercase key = key) (entry : Value) :
    winner? axes key = some entry ↔ Wins axes key entry := by
  rw [winner?, Option.or_eq_some_iff, firstSpelling_eq_some_iff h, Fields.get?_eq_none_iff]
  constructor
  · rintro (hentry | ⟨hnone, name, hname, hentry, hleast⟩)
    · exact .exact hkey hentry
    · exact .smallest hnone name hname hentry hleast
  · intro hwins
    cases hwins with
    | exact _ hentry => exact Or.inl hentry
    | smallest hnone name hname hentry hleast =>
        exact Or.inr ⟨hnone, name, hname, hentry, hleast⟩

/-- Only names in small letters are won. -/
theorem Wins.lowercase_key {axes : Fields Value} {key : String} {entry : Value}
    (h : Wins axes key entry) : Text.lowercase key = key := by
  cases h with
  | exact hkey _ => exact hkey
  | smallest _ name hname _ _ => rw [← hname, Text.lowercase_lowercase]

/-- **What the record holds under a name** is what stands for the winner. -/
theorem get?_adaptAxes_eq_some_iff {axes : Fields Value} (h : axes.Ascending) (key : String)
    (value : Value) :
    (adaptAxes axes).get? key = some value ↔
      ∃ entry, Wins axes key entry ∧ Adapts entry value := by
  by_cases hkey : Text.lowercase key = key
  · rw [get?_adaptAxes h.nodup hkey, Option.map_eq_some_iff]
    simp only [winner?_eq_some_iff h hkey, adaptEntry_eq_iff]
  · have hnone : key ∉ (adaptAxes axes).names := by
      rw [mem_names_adaptAxes]
      rintro ⟨name, -, rfl⟩
      exact hkey (Text.lowercase_lowercase name)
    rw [(Fields.get?_eq_none_iff _ _).mpr hnone]
    constructor
    · intro hvalue
      cases hvalue
    · rintro ⟨entry, hwins, -⟩
      exact absurd hwins.lowercase_key hkey

/-- **The record of axes in order** holds their winners. -/
theorem collects_adaptAxes {axes : Fields Value} (h : axes.Ascending) :
    Collects axes (adaptAxes axes) where
  ascending := ascending_adaptAxes axes
  mem_names_iff := mem_names_adaptAxes axes
  winner := by
    intro key hmem
    obtain ⟨value, hvalue⟩ := (Fields.mem_names_iff _ _).mp hmem
    obtain ⟨entry, hwins, -⟩ := (get?_adaptAxes_eq_some_iff h key value).mp hvalue
    refine ⟨entry, hwins, ?_⟩
    intro other hother
    have hentry := (winner?_eq_some_iff h hwins.lowercase_key entry).mpr hwins
    have hother := (winner?_eq_some_iff h hwins.lowercase_key other).mpr hother
    exact Option.some.inj (hother.symm.trans hentry)
  get?_eq_some_iff := get?_adaptAxes_eq_some_iff h

/-! ### Profiles -/

/-- **The bounds of a record of winners** on an axis come from the first of the axis's
names whose winner describes any. -/
theorem Collects.resolves_iff {axes record : Fields Value} (h : Collects axes record)
    (axis : Axis) (b : Bounds) :
    BoundsSet.Resolves (.object record) axis b ↔ GivenOnAxis (GivesBounds axes) axis b := by
  have hgives : (fun key bounds => ∃ value, record.get? key = some value ∧
      Bounds.Describes value bounds) = GivesBounds axes := by
    funext key bounds
    refine propext ?_
    simp only [h.get?_eq_some_iff, GivesBounds]
    constructor
    · rintro ⟨value, ⟨entry, hwins, hadapts⟩, hdescribes⟩
      exact ⟨entry, value, hwins, hadapts, hdescribes⟩
    · rintro ⟨entry, value, hwins, hadapts, hdescribes⟩
      exact ⟨value, ⟨entry, hwins, hadapts⟩, hdescribes⟩
  simp only [BoundsSet.Resolves, Value.object.injEq, exists_eq_left', hgives]

/-- **The record of a profile holds the winners of its axes**, and the bounds on an
axis are those of its winner: that of `x`, `y` or `z`, and for the extrusion axis that
of `e`, or that of `extrusion` if the winner of `e` describes none. -/
theorem recordOf_boundsRecord {profile : Value} (h : profile.Ordered) :
    RecordOf profile (boundsRecord profile) ∧
      ∀ axis b, (BoundsSet.ofRecord (boundsRecord profile)).get? axis = some b ↔
        ∃ axes, HasAxes profile axes ∧ GivenOnAxis (GivesBounds axes) axis b := by
  simp only [BoundsSet.get?_ofRecord_eq_some_iff, ← axes?_eq_some_iff, boundsRecord]
  cases haxes : axes? profile with
  | none =>
      refine ⟨.null ((axes?_eq_none_iff profile).mp haxes), ?_⟩
      intro axis b
      simp [Value.ofOption, BoundsSet.Resolves]
  | some axes =>
      have hhas : HasAxes profile axes := (axes?_eq_some_iff profile axes).mp haxes
      have hcollects := collects_adaptAxes (hhas.ascending h)
      refine ⟨.object hhas hcollects, ?_⟩
      intro axis b
      simp only [Value.ofOption, Option.some.injEq, exists_eq_left']
      exact hcollects.resolves_iff axis b

/-- A profile from the host with two usable names for the extrusion axis and two spellings
of the axis `x`, of which the small one has no lower travel limit. -/
def severalSpellings : HostValue :=
  .object [("axes", .object [
    ("extrusion", .object [("min", .number 1.0), ("max", .number 6.0)]),
    ("x", .object [("min", .number 2.0), ("max", .number 7.0), ("travel_max_mm", .number 9.0)]),
    ("X", .object [("travel_min_mm", .number 1.0), ("travel_max_mm", .number 9.0)]),
    ("Y", .object [("travel_min_mm", .number 3.0), ("travel_max_mm", .number 8.0)]),
    ("z", .object [("low", .number 4.0), ("maximum", .number 4.5)]),
    ("E", .object [("travel_min_mm", .number 0.0), ("travel_max_mm", .number 5.0)])])]

/-- A profile whose axes are its own fields, with an inverted `e` beside a usable name for the
same axis. -/
def invertedFirstName : HostValue :=
  .object [("e", .object [("min", .number 5.0), ("max", .number 1.0)]),
    ("Extrusion", .object [("min", .number 0.0), ("max", .number 12.0)])]

/-- The records of these profiles follow the rules: the small `x` wins over its capital, `y`
and `e` are won by the only names that lower to them, `e` comes before `extrusion`, and
`extrusion` stands in for an `e` that describes nothing. -/
theorem recordOf_boundsRecord_severalSpellings :
    (severalSpellings.toRecord.Ordered ∧
      RecordOf severalSpellings.toRecord (boundsRecord severalSpellings.toRecord) ∧
      BoundsSet.ofRecord (boundsRecord severalSpellings.toRecord) =
        ⟨some ⟨2.0, 7.0⟩, some ⟨3.0, 8.0⟩, some ⟨4.0, 4.5⟩, some ⟨0.0, 5.0⟩⟩ ∧
      (∃ axes, HasAxes severalSpellings.toRecord axes ∧
        GivenOnAxis (GivesBounds axes) .y ⟨3.0, 8.0⟩) ∧
      ∃ axes, HasAxes severalSpellings.toRecord axes ∧
        GivenOnAxis (GivesBounds axes) .e ⟨0.0, 5.0⟩) ∧
    invertedFirstName.toRecord.Ordered ∧
      BoundsSet.ofRecord (boundsRecord invertedFirstName.toRecord) =
        ⟨none, none, none, some ⟨0.0, 12.0⟩⟩ ∧
      ∃ axes, HasAxes invertedFirstName.toRecord axes ∧
        GivenOnAxis (GivesBounds axes) .e ⟨0.0, 12.0⟩ := by
  have hordered : severalSpellings.toRecord.Ordered := severalSpellings.ordered_toRecord
  have hset : BoundsSet.ofRecord (boundsRecord severalSpellings.toRecord) =
      ⟨some ⟨2.0, 7.0⟩, some ⟨3.0, 8.0⟩, some ⟨4.0, 4.5⟩, some ⟨0.0, 5.0⟩⟩ := by decide +kernel
  obtain ⟨hrecord, hbounds⟩ := recordOf_boundsRecord hordered
  have hordered' : invertedFirstName.toRecord.Ordered := invertedFirstName.ordered_toRecord
  have hset' : BoundsSet.ofRecord (boundsRecord invertedFirstName.toRecord) =
      ⟨none, none, none, some ⟨0.0, 12.0⟩⟩ := by decide +kernel
  obtain ⟨-, hbounds'⟩ := recordOf_boundsRecord hordered'
  refine ⟨⟨hordered, hrecord, hset, ?_, ?_⟩, hordered', hset', ?_⟩
  · exact (hbounds .y ⟨3.0, 8.0⟩).mp (by rw [hset]; rfl)
  · exact (hbounds .e ⟨0.0, 5.0⟩).mp (by rw [hset]; rfl)
  · exact (hbounds' .e ⟨0.0, 12.0⟩).mp (by rw [hset']; rfl)

end YarnPreview.Machine
