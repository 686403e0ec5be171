import Mathlib
import YarnPreview.Comparison
import YarnPreview.Proofs.Bounds.Resolution
import YarnPreview.Proofs.Value.Lookup

/-!
# Edits of a record that its bounds do not see

Exports carry more than is read of them: notes, units, limits under several names, entries
that are null.  This module lists the edits of a record that leave its bounds set as it is,
and shows that any number of them does, in any order.

## Main definitions

* `Fields.Edit` — the field of one name is put or removed
* `Bounds.EntryEdit` — one edit of an entry that leaves its limits
* `BoundsSet.RecordEdit` — one edit of a record that leaves its bounds set
* `BoundsSet.AxisEdit` — any edit of the entries of one axis

## Main statements

* `findSome?_eq_of_given` — after the first name that gives something, names decide nothing
* `Bounds.EntryEdit.normalize?_eq`, `BoundsSet.RecordEdit.get?_eq` — one edit
* `BoundsSet.ofRecord_edits` — any number of edits, of either side of a comparison, and edits
  of one axis seen from the others

## What a search stops at

Both searches are deaf to what stands behind the name that they stop at, but they stop at
different things.  The names of a limit are passed over when they are null, and a value that
is no number stops the search as well: behind it an alias may be changed at will, but it must
not be deleted itself.  The names of an axis are passed over whenever their entry is unusable:
so an entry may be changed only behind one that describes bounds.
-/

namespace YarnPreview

/-! ### Edits of fields -/

/-- **One edit of fields under a name**: a value is put there, in place of the one that is
there or as a new one, or what is there is removed. -/
inductive Fields.Edit {α : Type} (name : String) (fields : Fields α) : Fields α → Prop
  | put (value : α) : Fields.Edit name fields (fields.insert name value)
  | remove : Fields.Edit name fields (fields.without name)

/-- Under every other name an edit changes nothing. -/
theorem Fields.Edit.get?_of_ne {α : Type} {name : String} {fields edited : Fields α}
    (h : Fields.Edit name fields edited) {other : String} (hother : other ≠ name) :
    edited.get? other = fields.get? other := by
  cases h with
  | put value => rw [Fields.get?_insert, if_neg hother]
  | remove => rw [Fields.get?_without, if_neg hother]

/-- **After the first name that gives something, names decide nothing**: two searches that
agree on a first part of the names find the same, if one of that part gives something. -/
theorem findSome?_eq_of_given {α : Type} {names earlier later : List String}
    {search other : String → Option α} (hnames : names = earlier ++ later)
    (hgiven : ∃ name ∈ earlier, ∃ a, search name = some a)
    (hsame : ∀ name ∈ earlier, other name = search name) :
    names.findSome? other = names.findSome? search := by
  obtain ⟨name, hname, a, ha⟩ := hgiven
  obtain ⟨found, hfound⟩ : ∃ found, earlier.findSome? search = some found := by
    rw [← Option.isSome_iff_exists, List.findSome?_isSome_iff]
    exact ⟨name, hname, by rw [ha]; rfl⟩
  rw [hnames, List.findSome?_append, List.findSome?_append, findSome?_congr hsame, hfound,
    Option.some_or, Option.some_or]

namespace Bounds

/-! ### Edits of an entry -/

/-- The names of the two limits. -/
def limitAliases : List (List String) := [minAliases, maxAliases]

/-- No name is one of both limits. -/
theorem eq_of_mem_limitAliases {aliases others : List String} (haliases : aliases ∈ limitAliases)
    (hothers : others ∈ limitAliases) {name : String} (hname : name ∈ aliases)
    (hname' : name ∈ others) : aliases = others := by
  have hall : ∀ aliases ∈ limitAliases, ∀ others ∈ limitAliases, ∀ name ∈ aliases,
      name ∈ others → aliases = others := by
    decide
  exact hall aliases haliases others hothers name hname hname'

/-- No limit has a name twice. -/
theorem nodup_of_mem_limitAliases {aliases : List String} (h : aliases ∈ limitAliases) :
    aliases.Nodup := by
  have hall : ∀ aliases ∈ limitAliases, aliases.Nodup := by decide
  exact hall aliases h

/-- **One edit of an entry that leaves its limits.** -/
inductive EntryEdit (fields : Fields Value) : Fields Value → Prop
  /-- A null field is deleted. -/
  | dropNull {name : String} (hnull : fields.get? name = some .null) :
      EntryEdit fields (fields.without name)
  /-- A field that names no limit is added, changed or removed. -/
  | other {name : String} {edited : Fields Value}
      (hname : ∀ aliases ∈ limitAliases, name ∉ aliases) (hedit : Fields.Edit name fields edited) :
      EntryEdit fields edited
  /-- An alias behind a defined one of the same limit is added, changed or removed. -/
  | lower {aliases earlier later : List String} {name : String} {edited : Fields Value}
      (haliases : aliases ∈ limitAliases) (hsplit : aliases = earlier ++ name :: later)
      (hdefined : ∃ first ∈ earlier, ∃ value, Defines fields first value)
      (hedit : Fields.Edit name fields edited) : EntryEdit fields edited

/-- A null field is no defined field: deleting it is nothing to the search. -/
theorem filter_get?_without_of_null {fields : Fields Value} {name : String}
    (hnull : fields.get? name = some .null) (key : String) :
    ((fields.without name).get? key).filter (!·.isNull) =
      (fields.get? key).filter (!·.isNull) := by
  rw [Fields.get?_without]
  split
  · next hkey =>
      rw [hkey, hnull]
      rfl
  · rfl

/-- **An edit leaves the first defined alias** of either limit. -/
theorem EntryEdit.firstDefined?_eq {fields edited : Fields Value} (h : EntryEdit fields edited)
    {aliases : List String} (haliases : aliases ∈ limitAliases) :
    firstDefined? edited aliases = firstDefined? fields aliases := by
  have hunread : ∀ {name : String}, name ∉ aliases → Fields.Edit name fields edited →
      firstDefined? edited aliases = firstDefined? fields aliases := by
    intro name hname hedit
    refine findSome?_congr ?_
    intro key hkey
    rw [hedit.get?_of_ne (ne_of_mem_of_not_mem hkey hname)]
  cases h with
  | dropNull hnull =>
      refine findSome?_congr ?_
      intro key _
      exact filter_get?_without_of_null hnull key
  | other hname hedit => exact hunread (hname aliases haliases) hedit
  | @lower others earlier later name _ hothers hsplit hdefined hedit =>
      by_cases hname : name ∈ aliases
      · have hmem : name ∈ others := by
          rw [hsplit]
          exact List.mem_append_right _ List.mem_cons_self
        obtain rfl := eq_of_mem_limitAliases haliases hothers hname hmem
        have hfresh : name ∉ earlier := by
          have hnodup := nodup_of_mem_limitAliases haliases
          rw [hsplit] at hnodup
          intro hearlier
          exact List.disjoint_of_nodup_append hnodup hearlier List.mem_cons_self
        refine findSome?_eq_of_given hsplit ?_ ?_
        · obtain ⟨first, hfirst, value, hvalue, hnull⟩ := hdefined
          refine ⟨first, hfirst, value, ?_⟩
          rw [hvalue, Option.filter_some_pos (by rw [hnull]; rfl)]
        · intro key hkey
          rw [hedit.get?_of_ne (ne_of_mem_of_not_mem hkey hfresh)]
      · exact hunread hname hedit

/-- **An edit leaves what an entry describes.** -/
theorem EntryEdit.normalize?_eq {fields edited : Fields Value} (h : EntryEdit fields edited) :
    normalize? (.object edited) = normalize? (.object fields) := by
  have hlimit : ∀ aliases ∈ limitAliases, limit edited aliases = limit fields aliases := by
    intro aliases haliases
    rw [limit, limit, h.firstDefined?_eq haliases]
  have hlimits : ofFields edited = ofFields fields := by
    rw [ofFields, ofFields, hlimit minAliases List.mem_cons_self,
      hlimit maxAliases (List.mem_cons_of_mem _ List.mem_cons_self)]
  rw [normalize?, normalize?, Value.fields?, Value.fields?, Option.map_some, Option.map_some,
    hlimits]

end Bounds

namespace BoundsSet

/-! ### Edits of a record -/

/-- No name is one of two axes. -/
theorem eq_of_mem_recordKeys {axis other : Axis} {key : String} (hkey : key ∈ axis.recordKeys)
    (hkey' : key ∈ other.recordKeys) : axis = other := by
  have hall : ∀ axis ∈ Axis.all, ∀ other ∈ Axis.all, ∀ key ∈ axis.recordKeys,
      key ∈ other.recordKeys → axis = other := by
    decide
  exact hall axis (Axis.mem_all axis) other (Axis.mem_all other) key hkey hkey'

/-- **One edit of a record that leaves its bounds set.** -/
inductive RecordEdit : Value → Value → Prop
  /-- A null entry is deleted. -/
  | dropNull {fields : Fields Value} {key : String} (hnull : fields.get? key = some .null) :
      RecordEdit (.object fields) (.object (fields.without key))
  /-- An entry is edited in a way that leaves its limits. -/
  | entry {fields entry edited : Fields Value} {key : String}
      (hentry : fields.get? key = some (.object entry)) (hedit : Bounds.EntryEdit entry edited) :
      RecordEdit (.object fields) (.object (fields.insert key (.object edited)))
  /-- A field that names no axis is added, changed or removed. -/
  | other {fields edited : Fields Value} {key : String}
      (hkey : ∀ axis : Axis, key ∉ axis.recordKeys) (hedit : Fields.Edit key fields edited) :
      RecordEdit (.object fields) (.object edited)
  /-- The second name of the extrusion axis is added, changed or removed, while the entry under
  the first one describes bounds. -/
  | extrusion {fields edited : Fields Value} {first : Value} {b : Bounds}
      (hfirst : fields.get? "e" = some first) (hdescribes : Bounds.Describes first b)
      (hedit : Fields.Edit "extrusion" fields edited) :
      RecordEdit (.object fields) (.object edited)

/-- **Any edit of the entries of one axis**: one of them is added, changed or removed. -/
inductive AxisEdit (axis : Axis) : Value → Value → Prop
  | edit {fields edited : Fields Value} {key : String} (hkey : key ∈ axis.recordKeys)
      (hedit : Fields.Edit key fields edited) : AxisEdit axis (.object fields) (.object edited)

/-- An axis does not see the fields of other names. -/
theorem axisOfFields?_edit_of_not_mem {axis : Axis} {key : String} (hkey : key ∉ axis.recordKeys)
    {fields edited : Fields Value} (hedit : Fields.Edit key fields edited) :
    axisOfFields? edited axis = axisOfFields? fields axis := by
  refine findSome?_congr ?_
  intro name hname
  rw [hedit.get?_of_ne (ne_of_mem_of_not_mem hname hkey)]

/-- An entry may be replaced by one that describes the same. -/
theorem axisOfFields?_congr {fields edited : Fields Value}
    (h : ∀ key, (edited.get? key).bind Bounds.normalize? =
      (fields.get? key).bind Bounds.normalize?) (axis : Axis) :
    axisOfFields? edited axis = axisOfFields? fields axis := by
  refine findSome?_congr ?_
  intro key _
  exact h key

/-- **An edit leaves the bounds of every axis.** -/
theorem RecordEdit.get?_eq {record edited : Value} (h : RecordEdit record edited) (axis : Axis) :
    (ofRecord edited).get? axis = (ofRecord record).get? axis := by
  rw [get?_ofRecord, get?_ofRecord]
  cases h with
  | @dropNull fields key hnull =>
      refine axisOfFields?_congr ?_ axis
      intro name
      rw [Fields.get?_without]
      split
      · next hname =>
          rw [hname, hnull]
          rfl
      · rfl
  | @entry fields entry edited key hentry hedit =>
      refine axisOfFields?_congr ?_ axis
      intro name
      rw [Fields.get?_insert]
      split
      · next hname =>
          rw [hname, hentry, Option.bind_some, Option.bind_some, hedit.normalize?_eq]
      · rfl
  | other hkey hedit => exact axisOfFields?_edit_of_not_mem (hkey axis) hedit
  | @extrusion fields edited first b hfirst hdescribes hedit =>
      by_cases haxis : "extrusion" ∈ axis.recordKeys
      · obtain rfl : axis = .e := eq_of_mem_recordKeys haxis (by decide)
        have hkeys : Axis.e.recordKeys = ["e"] ++ ["extrusion"] := rfl
        show axisOfFields? edited .e = axisOfFields? fields .e
        refine findSome?_eq_of_given hkeys ⟨"e", List.mem_cons_self, b, ?_⟩ ?_
        · rw [hfirst, Option.bind_some, Bounds.normalize?_eq_some_iff]
          exact hdescribes
        · intro key hkey
          rw [hedit.get?_of_ne]
          rintro rfl
          revert hkey
          decide
      · exact axisOfFields?_edit_of_not_mem haxis hedit

/-- **An edit of one axis leaves every other.** -/
theorem AxisEdit.get?_eq {axis : Axis} {record edited : Value} (h : AxisEdit axis record edited)
    {other : Axis} (hother : other ≠ axis) :
    (ofRecord edited).get? other = (ofRecord record).get? other := by
  rw [get?_ofRecord, get?_ofRecord]
  cases h with
  | edit hkey hedit =>
      refine axisOfFields?_edit_of_not_mem ?_ hedit
      intro hkey'
      exact hother (eq_of_mem_recordKeys hkey' hkey)

/-- What every edit leaves, any number of edits leaves. -/
theorem get?_eq_of_edits {edit : Value → Value → Prop} {axis : Axis}
    (hedit : ∀ {record edited : Value}, edit record edited →
      (ofRecord edited).get? axis = (ofRecord record).get? axis)
    {record edited : Value} (h : Relation.ReflTransGen edit record edited) :
    (ofRecord edited).get? axis = (ofRecord record).get? axis := by
  induction h with
  | refl => rfl
  | tail _ hlast ih => exact (hedit hlast).trans ih

/-- **Edits that the bounds of a record do not see.**  Any number of edits, in any order, leaves
the bounds set, and so the comparison with anything on the other side; and any number of edits of
one axis leaves the bounds of every other. -/
theorem ofRecord_edits (record edited : Value) :
    (Relation.ReflTransGen RecordEdit record edited →
      ofRecord edited = ofRecord record ∧
        ∀ other, Comparison.ofRecords edited other = Comparison.ofRecords record other ∧
          Comparison.ofRecords other edited = Comparison.ofRecords other record) ∧
      ∀ axis, Relation.ReflTransGen (AxisEdit axis) record edited →
        ∀ other ≠ axis, (ofRecord edited).get? other = (ofRecord record).get? other := by
  constructor
  · intro h
    have hset : ofRecord edited = ofRecord record := by
      refine AxisMap.ext_get? ?_
      intro axis
      exact get?_eq_of_edits (fun hedit => hedit.get?_eq axis) h
    refine ⟨hset, ?_⟩
    intro other
    rw [Comparison.ofRecords, Comparison.ofRecords, Comparison.ofRecords, Comparison.ofRecords,
      hset]
    exact ⟨rfl, rfl⟩
  · intro axis h other hother
    exact get?_eq_of_edits (fun hedit => hedit.get?_eq hother) h

/-- An entry with a null alias before the one that counts. -/
def crowdedEntry : Fields Value :=
  .ofList [("min", .null), ("min_mm", .ofNat 2), ("max", .ofNat 7)]

/-- A record with such an entry, a null one, and a second one for the extrusion axis. -/
def crowded : Fields Value :=
  .ofList
    [("e", .ofFields [("min", .ofNat 0), ("max", .ofNat 5)]), ("extrusion", .string "unknown"),
     ("x", .object crowdedEntry), ("y", .null)]

/-- The entry without its null alias, and with another one behind that which counts. -/
def tidiedEntry : Fields Value :=
  .insert "low" (.ofNat 9) (crowdedEntry.without "min")

/-- The record with that entry and a note, without the null entry and without the second one for
the extrusion axis. -/
def tidied : Fields Value :=
  .without "extrusion" (.insert "note" (.string "knitted") (.without "y"
    (.insert "x" (.object tidiedEntry)
      (crowded.insert "x" (.object (crowdedEntry.without "min"))))))

/-- Five edits that leave the bounds, and one of the extrusion axis that leaves the others. -/
theorem ofRecord_edits_crowded :
    Relation.ReflTransGen RecordEdit (.object crowded) (.object tidied) ∧
      ofRecord (.object tidied) = ofRecord (.object crowded) ∧
      (ofRecord (.object tidied)).get? .x = some ⟨2.0, 7.0⟩ ∧
      Relation.ReflTransGen (AxisEdit .e) (.object tidied) (.object (tidied.without "e")) ∧
      (ofRecord (.object (tidied.without "e"))).get? .e = none ∧
      (ofRecord (.object (tidied.without "e"))).get? .x = some ⟨2.0, 7.0⟩ := by
  have hnote : ∀ axis : Axis, "note" ∉ axis.recordKeys := by
    intro axis
    cases axis <;> decide
  have hdescribes : Bounds.Describes (.ofFields [("min", .ofNat 0), ("max", .ofNat 5)])
      ⟨0.0, 5.0⟩ := (Bounds.normalize?_eq_some_iff _ _).mp (by decide +kernel)
  have hlower : Bounds.EntryEdit (crowdedEntry.without "min") tidiedEntry :=
    .lower List.mem_cons_self (rfl : _ = ["min", "min_mm", "minimum"] ++ "low" :: [])
      ⟨"min_mm", by decide, .ofNat 2, rfl, rfl⟩ (.put _)
  have hedits : Relation.ReflTransGen RecordEdit (.object crowded) (.object tidied) := by
    refine .head (@RecordEdit.entry crowded crowdedEntry _ "x" rfl
      (@Bounds.EntryEdit.dropNull _ "min" rfl)) ?_
    refine .head (@RecordEdit.entry _ _ tidiedEntry "x" rfl hlower) ?_
    refine .head (@RecordEdit.dropNull _ "y" rfl) ?_
    refine .head (RecordEdit.other hnote (.put (.string "knitted"))) ?_
    exact .single (.extrusion rfl hdescribes .remove)
  have haxis : Relation.ReflTransGen (AxisEdit .e) (.object tidied)
      (.object (tidied.without "e")) := .single (.edit (by decide) .remove)
  have hset := ((ofRecord_edits _ _).1 hedits).1
  have hx : (ofRecord (.object tidied)).get? .x = some ⟨2.0, 7.0⟩ := by
    rw [hset]
    decide +kernel
  refine ⟨hedits, hset, hx, haxis, by decide +kernel, ?_⟩
  rw [(ofRecord_edits _ _).2 .e haxis .x (by decide), hx]

-- A value that is no number is not null: without it a later alias would count.
example :
    Bounds.normalize? (.ofFields [("max", .ofNat 7), ("min", .string "low"), ("min_mm", .ofNat 2)])
        = none ∧
      Bounds.normalize? (.ofFields [("max", .ofNat 7), ("min_mm", .ofNat 2)]) =
        some ⟨2.0, 7.0⟩ := by
  decide +kernel

end BoundsSet

end YarnPreview
