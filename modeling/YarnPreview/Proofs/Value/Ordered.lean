import Mathlib
import YarnPreview.Host.Value

/-!
# Ordered records

The fields of an object ascend by name, at every level of a record.  The type of
record values does not say so; this module does, and it gives the laws of lookup
that hold for fields in order.

## Main definitions

* `Value.Ordered` — the fields of every object in a value ascend

## Main statements

* `Fields.mem_names_iff`, `Fields.get?_append` — lookup in any list of fields
* `Fields.get?_eq_some_iff_mem` — lookup in ascending fields is membership
* `Fields.Ascending.eq_of_get?_eq` — ascending fields are determined by lookup
* `Fields.find?_eq_some_iff` — the first field with a property has the least name
* `HostValue.ordered_toRecord` — every record that the host hands over is in order
-/

namespace YarnPreview

namespace Fields

variable {α : Type}

/-- The names of fields, by lookup. -/
theorem mem_names_iff (fields : Fields α) (name : String) :
    name ∈ fields.names ↔ ∃ value, fields.get? name = some value := by
  induction fields with
  | nil => simp [names]
  | cons field rest ih =>
      show name ∈ field.1 :: names rest ↔ _
      rw [List.mem_cons, ih, get?_cons]
      split
      · next h => simp [h]
      · next h => simp [h]

/-- A name that is not there looks up to nothing. -/
theorem get?_eq_none_iff (fields : Fields α) (name : String) :
    fields.get? name = none ↔ name ∉ fields.names := by
  rw [mem_names_iff, Option.eq_none_iff_forall_ne_some, not_exists]

/-- Lookup in two lists of fields, one after the other. -/
theorem get?_append (fields rest : Fields α) (name : String) :
    get? (fields ++ rest) name = (get? fields name).or (get? rest name) := by
  induction fields with
  | nil => rfl
  | cons field fields ih =>
      rw [List.cons_append, get?_cons, get?_cons, ih]
      split <;> rfl

/-- What is looked up is there. -/
theorem mem_of_get?_eq_some {fields : Fields α} {name : String} {value : α}
    (h : fields.get? name = some value) : (name, value) ∈ fields := by
  induction fields with
  | nil => cases h
  | cons field rest ih =>
      rw [get?_cons] at h
      split at h
      · next hname =>
          cases h
          rw [hname]
          exact List.mem_cons_self
      · exact List.mem_cons_of_mem field (ih h)

/-- Insertion brings in its own field and no other. -/
theorem eq_or_mem_of_mem_insert {fields : Fields α} {name : String} {value : α}
    {field : String × α} (h : field ∈ insert name value fields) :
    field = (name, value) ∨ field ∈ fields := by
  induction fields with
  | nil => exact Or.inl (List.mem_singleton.mp h)
  | cons first rest ih =>
      unfold insert at h
      split at h
      · exact List.mem_cons.mp h
      · split at h
        · rcases List.mem_cons.mp h with h | h
          · exact Or.inl h
          · exact Or.inr (List.mem_cons_of_mem first h)
        · rcases List.mem_cons.mp h with rfl | h
          · exact Or.inr List.mem_cons_self
          · exact (ih h).imp_right (List.mem_cons_of_mem first)

/-- A name before all others is inserted in front. -/
theorem insert_of_forall_lt {fields : Fields α} {name : String}
    (h : ∀ other ∈ fields.names, name < other) (value : α) :
    insert name value fields = (name, value) :: fields := by
  cases fields with
  | nil => rfl
  | cons field rest =>
      have hlt : name < field.1 := h field.1 List.mem_cons_self
      rw [insert, if_pos hlt]

/-- The fields of a list of pairs are among the pairs. -/
theorem mem_of_mem_ofList {pairs : List (String × α)} {field : String × α}
    (h : field ∈ ofList pairs) : field ∈ pairs := by
  induction pairs using List.reverseRecOn with
  | nil => exact h
  | append_singleton pairs pair ih =>
      rw [ofList, List.foldl_append] at h
      rcases eq_or_mem_of_mem_insert h with rfl | h
      · exact List.mem_append_right pairs (List.mem_singleton_self pair)
      · exact List.mem_append_left [pair] (ih h)

/-- One more field keeps names apart when its name is new. -/
theorem nodup_names_concat {fields : Fields α} {field : String × α} :
    (names (fields ++ [field])).Nodup ↔ fields.names.Nodup ∧ field.1 ∉ fields.names := by
  have hnames : names (fields ++ [field]) = fields.names.concat field.1 := by
    simp [names]
  rw [hnames, List.nodup_concat, and_comm]

/-- Ascending names occur once. -/
theorem Ascending.nodup {fields : Fields α} (h : fields.Ascending) : fields.names.Nodup :=
  h.imp fun hlt => hlt.ne

/-- A field is found under its name, when no name occurs twice. -/
theorem get?_of_mem {fields : Fields α} (h : fields.names.Nodup) {name : String} {value : α}
    (hmem : (name, value) ∈ fields) : fields.get? name = some value := by
  induction fields with
  | nil => cases hmem
  | cons field rest ih =>
      obtain ⟨hfirst, hrest⟩ := List.nodup_cons.mp h
      rw [get?_cons]
      rcases List.mem_cons.mp hmem with rfl | hmem
      · exact if_pos rfl
      · have hne : name ≠ field.1 := by
          rintro rfl
          exact hfirst (List.mem_map.mpr ⟨_, hmem, rfl⟩)
        rw [if_neg hne, ih hrest hmem]

/-- **Lookup in ascending fields is membership.** -/
theorem get?_eq_some_iff_mem {fields : Fields α} (h : fields.Ascending) (name : String)
    (value : α) : fields.get? name = some value ↔ (name, value) ∈ fields :=
  ⟨mem_of_get?_eq_some, get?_of_mem h.nodup⟩

/-- **Ascending fields are determined by what they look up to.** -/
theorem Ascending.eq_of_get?_eq {fields other : Fields α} (h : fields.Ascending)
    (hother : other.Ascending) (hget : ∀ name, fields.get? name = other.get? name) :
    fields = other := by
  have hpairwise : ∀ {pairs : Fields α}, pairs.Ascending →
      pairs.Pairwise fun field later => field.1 < later.1 :=
    fun hpairs => List.pairwise_map.mp hpairs
  have hperm : fields.Perm other := by
    rw [List.perm_ext_iff_of_nodup ((hpairwise h).imp fun hlt heq => hlt.ne (congrArg _ heq))
      ((hpairwise hother).imp fun hlt heq => hlt.ne (congrArg _ heq))]
    rintro ⟨name, value⟩
    rw [← get?_eq_some_iff_mem h, ← get?_eq_some_iff_mem hother, hget]
  exact hperm.eq_of_pairwise (fun _ _ _ _ hlt hgt => absurd hlt (lt_asymm hgt)) (hpairwise h)
    (hpairwise hother)

/-- A field is determined by its name. -/
theorem eq_of_mem_of_name_eq {fields : Fields α} (h : fields.Ascending)
    {field other : String × α} (hfield : field ∈ fields) (hother : other ∈ fields)
    (hname : other.1 = field.1) : other = field := by
  have hvalue : some other.2 = some field.2 := by
    rw [← (get?_eq_some_iff_mem h other.1 other.2).mpr hother, hname]
    exact (get?_eq_some_iff_mem h field.1 field.2).mpr hfield
  exact Prod.ext hname (Option.some.inj hvalue)

/-- The first field with a property comes before all others that have it. -/
theorem lt_of_find?_eq_some {fields : Fields α} (h : fields.Ascending)
    {property : String × α → Bool} {field other : String × α}
    (hfind : fields.find? property = some field) (hother : other ∈ fields)
    (hproperty : property other = true) (hne : other ≠ field) : field.1 < other.1 := by
  obtain ⟨-, before, after, rfl, hbefore⟩ := List.find?_eq_some_iff_append.mp hfind
  rcases List.mem_append.mp hother with hother | hother
  · simpa [hproperty] using hbefore other hother
  · have hafter := (List.pairwise_append.mp (List.pairwise_map.mp h)).2.1
    rcases List.mem_cons.mp hother with rfl | hother
    · exact absurd rfl hne
    · exact (List.pairwise_cons.mp hafter).1 other hother

/-- **The first field with a property has the least name** among those that have
it. -/
theorem find?_eq_some_iff {fields : Fields α} (h : fields.Ascending)
    (property : String × α → Bool) (field : String × α) :
    fields.find? property = some field ↔
      field ∈ fields ∧ property field = true ∧
        ∀ other ∈ fields, property other = true → other ≠ field → field.1 < other.1 := by
  constructor
  · intro hfind
    refine ⟨List.mem_of_find?_eq_some hfind, List.find?_some hfind, ?_⟩
    intro other hother hproperty hne
    exact lt_of_find?_eq_some h hfind hother hproperty hne
  · rintro ⟨hfield, hproperty, hleast⟩
    cases hfind : fields.find? property with
    | none => exact absurd hproperty (List.find?_eq_none.mp hfind field hfield)
    | some first =>
        -- Each of two different fields would have the smaller name.
        by_contra hdiffer
        have hfirst := List.mem_of_find?_eq_some hfind
        have hne : field ≠ first := by
          rintro rfl
          exact hdiffer rfl
        have hlt := lt_of_find?_eq_some h hfind hfield hproperty hne
        exact lt_asymm hlt (hleast first hfirst (List.find?_some hfind) hne.symm)

end Fields

namespace Value

/-- **A value in order**: at every level, the fields of an object ascend by name. -/
inductive Ordered : Value → Prop
  | null : Ordered .null
  | bool (b : Bool) : Ordered (.bool b)
  | number (n : Number) : Ordered (.number n)
  | string (s : String) : Ordered (.string s)
  | array {items : List Value} (h : ∀ item ∈ items, Ordered item) : Ordered (.array items)
  | object {fields : List (String × Value)} (hascending : Fields.Ascending fields)
      (h : ∀ field ∈ fields, Ordered field.2) : Ordered (.object fields)

/-- The fields of an object in order ascend. -/
theorem Ordered.ascending {fields : Fields Value} (h : Ordered (.object fields)) :
    fields.Ascending := by
  cases h with
  | object hascending _ => exact hascending

/-- What an ordered value holds in a field is in order. -/
theorem Ordered.field? {value : Value} (h : value.Ordered) {name : String} {inner : Value}
    (hinner : value.field? name = some inner) : inner.Ordered := by
  cases h with
  | object _ hfields => exact hfields (name, inner) (Fields.mem_of_get?_eq_some hinner)
  | _ => cases hinner

/-- A double enters a record as a number or by its name. -/
theorem ordered_ofFloatOrName (x : Float) : (ofFloatOrName x).Ordered := by
  unfold ofFloatOrName
  split
  · exact .number _
  · exact .string _

end Value

namespace HostValue

/-! ### Records from the host -/

/-- The fields of an object from the host ascend, in whatever order the host lists
them: each of them is inserted. -/
theorem ascending_toRecordFields (fields : List (String × HostValue)) :
    (toRecordFields fields).Ascending := by
  induction fields with
  | nil => exact List.Pairwise.nil
  | cons field rest ih =>
      obtain ⟨name, value⟩ := field
      rw [toRecordFields]
      split
      · exact ih
      · exact Fields.ascending_insert ih name value.toRecord

mutual

/-- **What the host hands over is in order**, whatever the order in the host. -/
theorem ordered_toRecord : ∀ value : HostValue, value.toRecord.Ordered
  | undefined => .null
  | null => .null
  | bool b => .bool b
  | number x => Value.ordered_ofFloatOrName x
  | string s => .string s
  | array items => .array (ordered_toRecords items)
  | object fields =>
      .object (ascending_toRecordFields fields) (ordered_toRecordFields fields)
  | foreign _ => .null

/-- The items of an array from the host are in order. -/
theorem ordered_toRecords : ∀ items : List HostValue, ∀ item ∈ toRecords items, item.Ordered
  | [], item, hitem => nomatch hitem
  | first :: rest, item, hitem => by
      rcases List.mem_cons.mp hitem with rfl | hitem
      · exact ordered_toRecord first
      · exact ordered_toRecords rest item hitem

/-- The values of an object from the host are in order. -/
theorem ordered_toRecordFields :
    ∀ fields : List (String × HostValue), ∀ field ∈ toRecordFields fields, field.2.Ordered
  | [], field, hfield => nomatch hfield
  | (name, value) :: rest, field, hfield => by
      rw [toRecordFields] at hfield
      split at hfield
      · exact ordered_toRecordFields rest field hfield
      · rcases Fields.eq_or_mem_of_mem_insert hfield with rfl | hfield
        · exact ordered_toRecord value
        · exact ordered_toRecordFields rest field hfield

end

end HostValue

end YarnPreview
