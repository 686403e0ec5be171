import Mathlib
import YarnPreview.Host.Value
import YarnPreview.Value.Coercion
import YarnPreview.Proofs.Number.NonFinite
import YarnPreview.Proofs.Value.Ordered

/-!
# The boundary to the host

Records go out to the host and come back, and host values come in and go out again.
This module says what such a passage keeps: all of a record, all of a host value that
holds nothing but data, and of any other host value everything that its record says.

## Main definitions

* `Value.Portable` — the records that host values can mean
* `HostValue.Plain` — the host values that are data throughout
* `HostValue.Alike` — host values that differ in the order of fields at most
* `HostValue.pruned` — a host value without its undefined fields

## Main statements

* `HostValue.toRecord_ofRecord` — a record comes back from the host as it was
* `HostValue.alike_ofRecord_toRecord` — plain data comes back from a record as it was
* `HostValue.portable_toRecord` — every host value means a portable record
* `HostValue.toRecord_pruned` — undefined fields mean nothing
* `HostValue.coerce_toRecord_number` — every number is read back by numeric coercion
* `HostValue.lossless_boundary` — the five of them together

## Design notes

**Where a passage could lose something.**  Undefined is dropped in a field and null
elsewhere; a number that is not finite becomes its name, which is a text and stays one
on every further passage; the fields of a record ascend, those of the host do not.
The record that a host value means has settled all three, so a second passage changes
nothing.

**Equality in the host.**  The host does not show the order of fields.  `Alike`
therefore compares objects as the host sees them: by their names, and by the values
under each name.
-/

namespace YarnPreview

/-- **A portable record**: its numbers are doubles and its fields ascend, at every
level. -/
inductive Value.Portable : Value → Prop
  | null : Portable .null
  | bool (b : Bool) : Portable (.bool b)
  | double (x : Float) (h : x.isFinite = true) : Portable (.number (.double x h))
  | string (s : String) : Portable (.string s)
  | array {items : List Value} (h : ∀ item ∈ items, Portable item) : Portable (.array items)
  | object {fields : List (String × Value)} (hascending : Fields.Ascending fields)
      (h : ∀ field ∈ fields, Portable field.2) : Portable (.object fields)

/-- A measured double enters a record as a portable value. -/
theorem Value.portable_ofFloatOrName (x : Float) : (Value.ofFloatOrName x).Portable := by
  by_cases hfinite : x.isFinite = true
  · rw [ofFloatOrName_of_isFinite hfinite]
    exact .double x hfinite
  · have hnone : Number.ofFloat? x = none := dif_neg hfinite
    rw [ofFloatOrName, hnone]
    exact .string _

namespace HostValue

/-! ### Data in the host -/

/-- **Plain data**: nothing in the value is undefined, foreign or a number that is not
finite. -/
inductive Plain : HostValue → Prop
  | null : Plain .null
  | bool (b : Bool) : Plain (.bool b)
  | number {x : Float} (h : x.isFinite = true) : Plain (.number x)
  | string (s : String) : Plain (.string s)
  | array {items : List HostValue} (h : ∀ item ∈ items, Plain item) : Plain (.array items)
  | object {fields : List (String × HostValue)} (h : ∀ field ∈ fields, Plain field.2) :
      Plain (.object fields)

/-- **Alike for the host**: equal but for the order of fields.  Two objects are alike
when they have the same names and, under each name, values that are alike. -/
inductive Alike : HostValue → HostValue → Prop
  | undefined : Alike .undefined .undefined
  | null : Alike .null .null
  | bool (b : Bool) : Alike (.bool b) (.bool b)
  | number (x : Float) : Alike (.number x) (.number x)
  | string (s : String) : Alike (.string s) (.string s)
  | foreign (kind : ForeignKind) : Alike (.foreign kind) (.foreign kind)
  | array {items others : List HostValue} (hlength : items.length = others.length)
      (h : ∀ (i : Nat) item other, items[i]? = some item → others[i]? = some other →
        Alike item other) : Alike (.array items) (.array others)
  | object {fields others : List (String × HostValue)}
      (hnames : ∀ name, name ∈ Fields.names fields ↔ name ∈ Fields.names others)
      (h : ∀ name value other, Fields.get? fields name = some value →
        Fields.get? others name = some other → Alike value other) :
      Alike (.object fields) (.object others)

mutual

/-- **A host value without its undefined fields**, at every level.  Undefined items of
an array stay: deleting them would move the others. -/
def pruned : HostValue → HostValue
  | undefined => undefined
  | null => null
  | bool b => bool b
  | number x => number x
  | string s => string s
  | array items => array (prunedItems items)
  | object fields => object (prunedFields fields)
  | foreign kind => foreign kind

/-- The items of an array, each without its undefined fields. -/
def prunedItems : List HostValue → List HostValue
  | [] => []
  | item :: rest => item.pruned :: prunedItems rest

/-- The fields of an object that are not undefined. -/
def prunedFields : List (String × HostValue) → List (String × HostValue)
  | [] => []
  | (name, value) :: rest =>
      if value.isUndefined then prunedFields rest
      else (name, value.pruned) :: prunedFields rest

end

/-! ### Out and back, child by child -/

/-- Items are read one by one. -/
theorem toRecords_eq_map (items : List HostValue) : toRecords items = items.map toRecord := by
  induction items with
  | nil => rfl
  | cons item rest ih => rw [toRecords, ih, List.map_cons]

/-- Items are handed out one by one. -/
theorem ofRecords_eq_map (items : List Value) : ofRecords items = items.map ofRecord := by
  induction items with
  | nil => rfl
  | cons item rest ih => rw [ofRecords, ih, List.map_cons]

/-- What is handed out is never undefined. -/
theorem isUndefined_ofRecord (value : Value) : (ofRecord value).isUndefined = false := by
  cases value <;> rfl

/-- Under a name the host finds what the record has there. -/
theorem get?_ofRecordFields (fields : Fields Value) (name : String) :
    Fields.get? (ofRecordFields fields) name = (fields.get? name).map ofRecord := by
  induction fields with
  | nil => rfl
  | cons field rest ih =>
      obtain ⟨other, value⟩ := field
      rw [ofRecordFields, Fields.get?_cons, Fields.get?_cons, ih]
      split <;> rfl

/-- **Under a name the record has what the host has there**, the undefined fields left
out. -/
theorem get?_toRecordFields (fields : List (String × HostValue)) (name : String) :
    (toRecordFields fields).get? name =
      (Fields.get? (fields.filter fun field => !field.2.isUndefined) name).map toRecord := by
  induction fields with
  | nil => rfl
  | cons field rest ih =>
      obtain ⟨other, value⟩ := field
      rw [toRecordFields, List.filter_cons]
      cases hvalue : value.isUndefined with
      | true => simpa using ih
      | false =>
          simp only [Bool.not_false, if_true, Bool.false_eq_true, if_false]
          rw [Fields.get?_insert, Fields.get?_cons, ih]
          split <;> rfl

/-- Fields in order come back in order, if their values come back. -/
theorem toRecordFields_ofRecordFields {fields : Fields Value} (hascending : fields.Ascending)
    (h : ∀ field ∈ fields, (ofRecord field.2).toRecord = field.2) :
    toRecordFields (ofRecordFields fields) = fields := by
  induction fields with
  | nil => rfl
  | cons field rest ih =>
      obtain ⟨name, value⟩ := field
      obtain ⟨hfirst, hrest⟩ := List.pairwise_cons.mp hascending
      have hvalue : (ofRecord value).toRecord = value := h (name, value) List.mem_cons_self
      have hothers := ih hrest fun field hfield => h field (List.mem_cons_of_mem _ hfield)
      rw [ofRecordFields, toRecordFields, isUndefined_ofRecord, if_neg Bool.false_ne_true,
        hvalue, hothers]
      exact Fields.insert_of_forall_lt hfirst value

/-! ### The two passages -/

/-- **A record comes back from the host as it was.**  The induction follows the
record; at an object it needs that the fields ascend, for they come back ascending. -/
theorem toRecord_ofRecord {value : Value} (h : value.Portable) :
    (ofRecord value).toRecord = value := by
  induction h with
  | null => rfl
  | bool b => rfl
  | double x hfinite => exact Value.ofFloatOrName_of_isFinite hfinite
  | string s => rfl
  | @array items _ ih =>
      have hitems : (items.map ofRecord).map toRecord = items := by
        have hid : items.map (toRecord ∘ ofRecord) = items.map id := List.map_congr_left ih
        rw [List.map_map, hid, List.map_id]
      rw [ofRecord, toRecord, toRecords_eq_map, ofRecords_eq_map, hitems]
  | object hascending _ ih =>
      rw [ofRecord, toRecord, toRecordFields_ofRecordFields hascending ih]

/-- Plain data is not undefined. -/
theorem Plain.isUndefined {value : HostValue} (h : value.Plain) : value.isUndefined = false := by
  cases h <;> rfl

/-- **Plain data comes back from a record as it was**, the order of fields aside. -/
theorem alike_ofRecord_toRecord {value : HostValue} (h : value.Plain) :
    (ofRecord value.toRecord).Alike value := by
  induction h with
  | null => exact .null
  | bool b => exact .bool b
  | @number x hfinite =>
      rw [toRecord, Value.ofFloatOrName_of_isFinite hfinite]
      exact .number x
  | string s => exact .string s
  | @array items _ ih =>
      rw [toRecord, ofRecord, toRecords_eq_map, ofRecords_eq_map, List.map_map]
      refine .array (List.length_map _) ?_
      intro i item other hitem hother
      rw [List.getElem?_map, hother] at hitem
      cases hitem
      exact ih other (List.mem_of_getElem? hother)
  | @object fields hfields ih =>
      have hdefined : fields.filter (fun field => !field.2.isUndefined) = fields := by
        rw [List.filter_eq_self]
        intro field hfield
        rw [(hfields field hfield).isUndefined, Bool.not_false]
      have hget : ∀ name, Fields.get? (ofRecordFields (toRecordFields fields)) name =
          (Fields.get? fields name).map (ofRecord ∘ toRecord) := by
        intro name
        rw [get?_ofRecordFields, get?_toRecordFields, hdefined, Option.map_map]
      rw [toRecord, ofRecord]
      refine .object ?_ ?_
      · intro name
        rw [Fields.mem_names_iff, Fields.mem_names_iff, hget]
        cases Fields.get? fields name <;> simp
      · intro name value other hvalue hother
        rw [hget, hother] at hvalue
        cases hvalue
        exact ih (name, other) (Fields.mem_of_get?_eq_some hother)

mutual

/-- **Every host value means a portable record**, whatever it holds. -/
theorem portable_toRecord : ∀ value : HostValue, value.toRecord.Portable
  | undefined => .null
  | null => .null
  | bool b => .bool b
  | number x => Value.portable_ofFloatOrName x
  | string s => .string s
  | array items => .array (portable_toRecords items)
  | object fields =>
      .object (ascending_toRecordFields fields) (portable_toRecordFields fields)
  | foreign _ => .null

/-- The items of an array from the host are portable. -/
theorem portable_toRecords : ∀ items : List HostValue, ∀ item ∈ toRecords items, item.Portable
  | [], item, hitem => nomatch hitem
  | first :: rest, item, hitem => by
      rcases List.mem_cons.mp hitem with rfl | hitem
      · exact portable_toRecord first
      · exact portable_toRecords rest item hitem

/-- The values of an object from the host are portable. -/
theorem portable_toRecordFields :
    ∀ fields : List (String × HostValue), ∀ field ∈ toRecordFields fields, field.2.Portable
  | [], field, hfield => nomatch hfield
  | (name, value) :: rest, field, hfield => by
      rw [toRecordFields] at hfield
      split at hfield
      · exact portable_toRecordFields rest field hfield
      · rcases Fields.eq_or_mem_of_mem_insert hfield with rfl | hfield
        · exact portable_toRecord value
        · exact portable_toRecordFields rest field hfield

end

/-! ### Undefined fields -/

/-- Pruning makes nothing undefined, and nothing defined. -/
theorem isUndefined_pruned (value : HostValue) : value.pruned.isUndefined = value.isUndefined := by
  cases value <;> simp only [pruned, isUndefined]

mutual

/-- **Undefined fields mean nothing**: without them a host value means the same
record. -/
theorem toRecord_pruned : ∀ value : HostValue, value.pruned.toRecord = value.toRecord
  | undefined => by rw [pruned]
  | null => by rw [pruned]
  | bool b => by rw [pruned]
  | number x => by rw [pruned]
  | string s => by rw [pruned]
  | array items => by rw [pruned, toRecord, toRecord, toRecords_prunedItems items]
  | object fields => by rw [pruned, toRecord, toRecord, toRecordFields_prunedFields fields]
  | foreign kind => by rw [pruned]

/-- The items of an array mean the same without their undefined fields. -/
theorem toRecords_prunedItems : ∀ items : List HostValue,
    toRecords (prunedItems items) = toRecords items
  | [] => by rw [prunedItems]
  | item :: rest => by
      rw [prunedItems, toRecords, toRecords, toRecord_pruned item, toRecords_prunedItems rest]

/-- The fields that are left mean the same as all of them. -/
theorem toRecordFields_prunedFields : ∀ fields : List (String × HostValue),
    toRecordFields (prunedFields fields) = toRecordFields fields
  | [] => by rw [prunedFields]
  | (name, value) :: rest => by
      have hrest := toRecordFields_prunedFields rest
      have hvalue := toRecord_pruned value
      rw [prunedFields, toRecordFields]
      split
      · exact hrest
      · next hdefined =>
          rw [toRecordFields, isUndefined_pruned, if_neg hdefined, hvalue, hrest]

end

/-! ### Numbers -/

/-- **Every number is read back**: a finite one is a number of the record, and each of
the three others is read off its name. -/
theorem coerce_toRecord_number (x : Float) : (number x).toRecord.coerce = x := by
  rw [toRecord]
  cases hfinite : x.isFinite with
  | true => rw [Value.ofFloatOrName_of_isFinite hfinite, Value.coerce_number, Number.toFloat_double]
  | false =>
      rcases eq_of_not_isFinite hfinite with rfl | rfl | rfl
      · decide
      · decide
      · decide

/-- **The boundary loses nothing**, at any depth.  A portable record comes back from
the host as it was; plain data comes back from its record alike; the record of any host
value comes back as it was; deleting the undefined fields of a host value does not
change its record; and every number, NaN and the infinities included, is read back to
the bit. -/
theorem lossless_boundary :
    (∀ record : Value, record.Portable → (ofRecord record).toRecord = record) ∧
      (∀ value : HostValue, value.Plain → (ofRecord value.toRecord).Alike value) ∧
      (∀ value : HostValue, (ofRecord value.toRecord).toRecord = value.toRecord) ∧
      (∀ value : HostValue, value.pruned.toRecord = value.toRecord) ∧
      ∀ x : Float, (number x).toRecord.coerce = x :=
  ⟨fun _ h => toRecord_ofRecord h, fun _ h => alike_ofRecord_toRecord h,
    fun value => toRecord_ofRecord value.portable_toRecord, toRecord_pruned,
    coerce_toRecord_number⟩

/-- A record with a negative zero inside an array inside an object. -/
def nestedRecord : Value :=
  .object [("limits", .array [.number (.double (-0.0) (by decide)), .null]), ("name", .string "")]

/-- Plain data whose fields do not ascend, with a text that happens to be the name of a
number. -/
def nestedData : HostValue :=
  .object [("name", .string "NaN"), ("limits", .array [.object [("y", .null), ("x", .number 1.5)]])]

/-- The nested record comes back as it was, and so does the nested data but for the
order of its fields. -/
theorem lossless_boundary_nested :
    (nestedRecord.Portable ∧ (ofRecord nestedRecord).toRecord = nestedRecord) ∧
      nestedData.Plain ∧ (ofRecord nestedData.toRecord).Alike nestedData := by
  have hlimits : (Value.array [.number (.double (-0.0) (by decide)), .null]).Portable := by
    refine .array ?_
    simp only [List.forall_mem_cons]
    exact ⟨.double _ _, .null, by simp⟩
  have hportable : nestedRecord.Portable := by
    refine .object (by decide : ["limits", "name"].Pairwise (· < ·)) ?_
    simp only [List.forall_mem_cons]
    exact ⟨hlimits, .string _, by simp⟩
  have hinner : (HostValue.object [("y", .null), ("x", .number 1.5)]).Plain := by
    refine .object ?_
    simp only [List.forall_mem_cons]
    exact ⟨.null, .number (by decide), by simp⟩
  have hplain : nestedData.Plain := by
    refine .object ?_
    simp only [List.forall_mem_cons]
    exact ⟨.string _, .array (by simpa using hinner), by simp⟩
  obtain ⟨hrecord, hdata, -⟩ := lossless_boundary
  exact ⟨⟨hportable, hrecord _ hportable⟩, hplain, hdata _ hplain⟩

end HostValue

end YarnPreview
