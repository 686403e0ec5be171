import Mathlib
import YarnPreview.Proofs.Value.Ordered

/-!
# Lookup in fields that are built

Fields are built in four ways: from a list of pairs, from other fields under new
names, by picking what a lookup finds for the rows of a table, and by leaving some of
them out.  For each of them this module says what is found under a name, so that no
proof about a reader has to follow an insertion.

## Main definitions

* `Fields.pick` — what a lookup finds, row by row of a table
* `Fields.without`, `Fields.only` — the fields of all names but one, and of that one

## Main statements

* `Fields.get?_ofList` — lookup in a list of pairs, no name of which occurs twice
* `Fields.get?_rename` — lookup under a new name
* `Fields.get?_pick` — lookup of what was picked
* `Fields.get?_without`, `Fields.get?_only` — lookup among the fields that are left
* `Value.field?_ofFields` — lookup in an object that is written out
-/

namespace YarnPreview

namespace Fields

variable {α : Type}

/-! ### Lists of pairs -/

/-- **Lookup in the fields of a list of pairs** is lookup in the list, as long as no
name occurs twice: inserting the last pair covers nothing. -/
theorem get?_ofList {pairs : List (String × α)} (h : (names pairs).Nodup) (name : String) :
    (ofList pairs).get? name = get? pairs name := by
  induction pairs using List.reverseRecOn with
  | nil => rfl
  | append_singleton pairs pair ih =>
      obtain ⟨hpairs, hpair⟩ := nodup_names_concat.mp h
      have hfresh : get? pairs pair.1 = none := (get?_eq_none_iff _ _).mpr hpair
      have hstep : ofList (pairs ++ [pair]) = insert pair.1 pair.2 (ofList pairs) := by
        rw [ofList, List.foldl_append]
        rfl
      rw [hstep, get?_insert, ih hpairs, get?_append, get?_cons, get?_nil]
      split
      · next hname => rw [hname, hfresh, Option.none_or]
      · rw [Option.or_none]

/-! ### New names -/

/-- **Lookup under a new name** finds what the old name has, when no two names become
one. -/
theorem get?_rename {rename : String → String} (h : Function.Injective rename)
    (fields : Fields α) (name : String) :
    get? (fields.map fun field => (rename field.1, field.2)) (rename name) =
      fields.get? name := by
  induction fields with
  | nil => rfl
  | cons field rest ih =>
      rw [List.map_cons, get?_cons, get?_cons, ih]
      simp only [h.eq_iff]

/-- New names are those of old names, each of them once if the old ones were. -/
theorem names_rename (rename : String → String) (fields : Fields α) :
    names (fields.map fun field => (rename field.1, field.2)) = fields.names.map rename := by
  simp only [names, List.map_map, Function.comp_def]

/-! ### Picking -/

/-- **What a lookup finds for the rows of a table**: under the first name of a row,
whatever is found under the second one, and nothing when nothing is found. -/
def pick (lookup : String → Option α) (table : List (String × String)) : Fields α :=
  table.filterMap fun row => (lookup row.2).map (row.1, ·)

/-- What is picked has the names of the table, some of them left out. -/
theorem names_pick_sublist (lookup : String → Option α) (table : List (String × String)) :
    List.Sublist (pick lookup table).names (table.map Prod.fst) := by
  induction table with
  | nil => exact List.Sublist.slnil
  | cons row table ih =>
      rw [pick, List.filterMap_cons, List.map_cons]
      cases lookup row.2 with
      | none => exact ih.cons row.1
      | some value => exact ih.cons_cons row.1

/-- Picked fields and others after them have no name twice, when the table and the others
have none. -/
theorem nodup_names_pick_append (lookup : String → Option α) {table : List (String × String)}
    {rest : Fields α} {others : List String} (hrest : List.Sublist rest.names others)
    (h : (table.map Prod.fst ++ others).Nodup) : (names (pick lookup table ++ rest)).Nodup := by
  refine List.Nodup.sublist ?_ h
  rw [names, List.map_append]
  exact (names_pick_sublist lookup table).append hrest

/-- Nothing is picked under a name that the table does not have. -/
theorem get?_pick_eq_none {lookup : String → Option α} {table : List (String × String)}
    {name : String} (h : name ∉ table.map Prod.fst) : (pick lookup table).get? name = none := by
  rw [get?_eq_none_iff]
  intro hmem
  exact h ((names_pick_sublist lookup table).subset hmem)

/-- The first row decides about its own name, unless it picks nothing. -/
theorem get?_pick_cons (lookup : String → Option α) (row : String × String)
    (table : List (String × String)) (name : String) :
    (pick lookup (row :: table)).get? name =
      (if name = row.1 then lookup row.2 else none).or ((pick lookup table).get? name) := by
  rw [pick, List.filterMap_cons]
  cases lookup row.2 with
  | none =>
      rw [ite_self, Option.none_or]
      rfl
  | some value =>
      rw [Option.map_some, get?_cons]
      split <;> rfl

/-- **Lookup of what was picked**: under the first name of a row stands what was found
under the second. -/
theorem get?_pick {lookup : String → Option α} {table : List (String × String)}
    (hnodup : (table.map Prod.fst).Nodup) {name source : String} (h : (name, source) ∈ table) :
    (pick lookup table).get? name = lookup source := by
  induction table with
  | nil => cases h
  | cons row table ih =>
      obtain ⟨hfirst, hrest⟩ := List.nodup_cons.mp hnodup
      rw [get?_pick_cons]
      rcases List.mem_cons.mp h with rfl | h
      · rw [if_pos rfl, get?_pick_eq_none hfirst, Option.or_none]
      · have hne : name ≠ row.1 := by
          rintro rfl
          exact hfirst (List.mem_map.mpr ⟨_, h, rfl⟩)
        rw [if_neg hne, Option.none_or, ih hrest h]

/-! ### Leaving out -/

/-- **The fields that are left** when a name is deleted. -/
def without (name : String) (fields : Fields α) : Fields α :=
  fields.filter fun field => field.1 ≠ name

/-- Under the deleted name nothing is found, and under any other name what was there. -/
theorem get?_without (name : String) (fields : Fields α) (other : String) :
    (without name fields).get? other = if other = name then none else fields.get? other := by
  induction fields with
  | nil => exact (ite_self none).symm
  | cons field rest ih =>
      rw [without, List.filter_cons, get?_cons]
      by_cases hfield : field.1 = name
      · rw [if_neg (by simpa using hfield)]
        refine ih.trans ?_
        split
        · rfl
        · next hother => rw [if_neg (by rwa [hfield])]
      · rw [if_pos (by simpa using hfield), get?_cons]
        split
        · next hother => rw [if_neg (by rwa [hother])]
        · exact ih

/-- **The fields of one name**; in an object of the host there is one at most. -/
def only (name : String) (fields : Fields α) : Fields α :=
  fields.filter fun field => field.1 = name

/-- They decide what is found under the name. -/
theorem get?_only (name : String) (fields : Fields α) :
    (only name fields).get? name = fields.get? name := by
  induction fields with
  | nil => rfl
  | cons field rest ih =>
      rw [only, List.filter_cons, get?_cons]
      by_cases hfield : field.1 = name
      · rw [if_pos (by simpa using hfield), get?_cons, if_pos hfield.symm, if_pos hfield.symm]
      · rw [if_neg (by simpa using hfield), if_neg (Ne.symm hfield)]
        exact ih

end Fields

/-- **Lookup in an object that is written out**, no name of which occurs twice. -/
theorem Value.field?_ofFields {pairs : List (String × Value)} (h : (Fields.names pairs).Nodup)
    (name : String) : (ofFields pairs).field? name = Fields.get? pairs name :=
  Fields.get?_ofList h name

end YarnPreview
