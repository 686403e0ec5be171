import Mathlib
import YarnPreview.Plan
import YarnPreview.Proofs.Bounds.Resolution
import YarnPreview.Proofs.Value.Ordered

/-!
# Names with a unit

A bounds record may name an axis with its unit, `x_mm` for `x`.  Resolving units goes
through the fields one by one and files each suffixed one under its short name, unless
the record had that name from the start.  This module says what the resolved record
holds under a name without the loop: the entry of that name, and failing that the entry
of the name with its unit.

## Main statements

* `Plan.withoutUnit?_eq_some_iff` — stripping a unit undoes appending it
* `Plan.get?_fileWithoutUnit` — one field filed
* `Plan.get?_resolveUnits` — the resolved record, by lookup
* `Plan.ofRecord_resolveUnits` — without suffixed names there is nothing to resolve

## The invariant

Presence is judged on the fields as they came, never on the record that grows.  So the
part of the loop that is done determines a lookup: filed entries are those of the
fields passed so far whose short name the record lacked.
-/

namespace YarnPreview.Plan

/-- **Stripping a unit undoes appending it**, and applies to nothing else. -/
theorem withoutUnit?_eq_some_iff (name short : String) :
    withoutUnit? name = some short ↔ name = short ++ "_mm" := by
  have hsuffix : "_mm".toList = unitSuffix := rfl
  simp only [withoutUnit?]
  constructor
  · intro h
    split at h
    · next hends =>
        obtain ⟨front, hfront⟩ := List.isSuffixOf_iff_suffix.mp hends
        have hshort : front = short.toList := by
          have htake := Option.some.inj h
          rw [← hfront, List.length_append, Nat.add_sub_cancel, List.take_left] at htake
          rw [← htake, String.toList_ofList]
        rw [← String.toList_inj, String.toList_append, hsuffix, ← hfront, hshort]
    · cases h
  · rintro rfl
    have hends : unitSuffix.isSuffixOf (short ++ "_mm").toList = true := by
      rw [List.isSuffixOf_iff_suffix, String.toList_append, hsuffix]
      exact List.suffix_append _ _
    rw [if_pos hends, String.toList_append, hsuffix, List.length_append, Nat.add_sub_cancel,
      List.take_left, String.ofList_toList]

/-- A name from which no unit can be stripped is no name with a unit. -/
theorem ne_unit_of_withoutUnit? {key : String} (h : withoutUnit? key = none) (name : String) :
    key ≠ name ++ "_mm" := by
  intro hkey
  rw [(withoutUnit?_eq_some_iff key name).mpr hkey] at h
  cases h

/-- Appending the unit makes no two names one. -/
theorem unit_injective : Function.Injective fun name : String => name ++ "_mm" := by
  intro name other h
  have hname := (withoutUnit?_eq_some_iff _ name).mpr rfl
  have hother := (withoutUnit?_eq_some_iff _ other).mpr h
  exact Option.some.inj (hname.symm.trans hother)

/-! ### The loop -/

/-- **One field filed**: it is found under its name without unit, if the fields as they
came do not have that name. -/
theorem get?_fileWithoutUnit (given record : Fields Value) (field : String × Value)
    (key : String) :
    (fileWithoutUnit given record field.1 field.2).get? key =
      if field.1 = key ++ "_mm" ∧ given.get? key = none then some field.2
      else record.get? key := by
  unfold fileWithoutUnit
  cases hshort : withoutUnit? field.1 with
  | none =>
      have hne : field.1 ≠ key ++ "_mm" := ne_unit_of_withoutUnit? hshort key
      rw [if_neg fun h => hne h.1]
  | some short =>
      have hname := (withoutUnit?_eq_some_iff _ short).mp hshort
      have hkey : field.1 = key ++ "_mm" ↔ key = short := by
        rw [hname]
        exact ⟨fun h => (unit_injective h).symm, fun h => h ▸ rfl⟩
      simp only [hkey, Option.isNone_iff_eq_none]
      by_cases hself : key = short
      · subst hself
        by_cases habsent : given.get? key = none
        · rw [if_pos habsent, Fields.get?_insert, if_pos rfl, if_pos ⟨rfl, habsent⟩]
        · rw [if_neg habsent, if_neg fun h => habsent h.2]
      · have hother : ¬ (key = short ∧ given.get? key = none) := fun h => hself h.1
        rw [if_neg hother]
        split
        · rw [Fields.get?_insert, if_neg hself]
        · rfl

/-- **The loop after some of the fields**: a name that the record lacked from the start
has the entry of its suffixed name, if that was among them. -/
theorem get?_foldl_fileWithoutUnit (given record : Fields Value) {fields : Fields Value}
    (hnodup : fields.names.Nodup) (key : String) :
    (fields.foldl (fun record field => fileWithoutUnit given record field.1 field.2)
        record).get? key =
      (if given.get? key = none then fields.get? (key ++ "_mm") else none).or
        (record.get? key) := by
  induction fields using List.reverseRecOn with
  | nil => rw [Fields.get?_nil, ite_self, Option.none_or, List.foldl_nil]
  | append_singleton fields field ih =>
      obtain ⟨hfields, hfield⟩ := Fields.nodup_names_concat.mp hnodup
      rw [List.foldl_append, List.foldl_cons, List.foldl_nil, get?_fileWithoutUnit, ih hfields,
        Fields.get?_append, Fields.get?_cons]
      by_cases habsent : given.get? key = none
      · by_cases hname : field.1 = key ++ "_mm"
        · -- The last field is the suffixed one, so none of the others is.
          have hfresh : Fields.get? fields (key ++ "_mm") = none := by
            rw [Fields.get?_eq_none_iff, ← hname]
            exact hfield
          rw [if_pos ⟨hname, habsent⟩, if_pos habsent, if_pos hname.symm, hfresh,
            Option.none_or, Option.some_or]
        · rw [if_neg fun h => hname h.1, if_pos habsent, if_pos habsent,
            if_neg fun h => hname h.symm, Fields.get?_nil, Option.or_none]
      · rw [if_neg fun h => habsent h.2, if_neg habsent, if_neg habsent]

/-- **Resolved units, by lookup**: under a name stands the entry of that name, present
even as null, and failing that the entry of the name with its unit. -/
theorem get?_resolveUnits {given : Fields Value} (hnodup : given.names.Nodup) (key : String) :
    (resolveUnits given).get? key = (given.get? key).or (given.get? (key ++ "_mm")) := by
  rw [resolveUnits, get?_foldl_fileWithoutUnit given given hnodup]
  cases hkey : given.get? key with
  | none => rw [if_pos rfl, Option.or_none, Option.none_or]
  | some entry => rw [if_neg (Option.some_ne_none entry), Option.none_or, Option.some_or]

/-! ### Bounds -/

/-- The names of the axes have no unit. -/
theorem ne_unit_of_mem_recordKeys {axis : Axis} {key : String} (h : key ∈ axis.recordKeys)
    (name : String) : key ≠ name ++ "_mm" := by
  have hplain : ∀ key ∈ axis.recordKeys, withoutUnit? key = none := by
    cases axis <;> decide
  exact ne_unit_of_withoutUnit? (hplain key h) name

/-- **Without suffixed names there is nothing to resolve**: when no name of an axis is
there with its unit, the bounds are those of the record as it came. -/
theorem ofRecord_resolveUnits {given : Fields Value} (hnodup : given.names.Nodup)
    (h : ∀ axis : Axis, ∀ key ∈ axis.recordKeys, given.get? (key ++ "_mm") = none) :
    BoundsSet.ofRecord (.object (resolveUnits given)) = BoundsSet.ofRecord (.object given) := by
  refine BoundsSet.ofRecord_congr ?_
  intro axis key hkey
  rw [get?_resolveUnits hnodup, h axis key hkey, Option.or_none]

end YarnPreview.Plan
