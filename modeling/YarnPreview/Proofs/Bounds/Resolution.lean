import Mathlib
import YarnPreview.Bounds
import YarnPreview.Proofs.Number.Exact

/-!
# Which bounds a record describes

Reading bounds runs two searches, one inside the other, and they stop at
different things: the names of a limit at the first field that is *defined*, the
names of an axis at the first entry that is *usable*.  This module says what the
two of them find without running them, so that statements about comparisons,
machines and plans can speak of the bounds of a record and not of a search.

## Main definitions

* `FirstGiven` — the first of several names that gives something
* `GivenOnAxis` — what is given on an axis, by the names that the axis goes by
* `Bounds.Describes` — an entry describes bounds
* `BoundsSet.Resolves` — a record gives bounds on an axis

## Main statements

* `firstGiven_recordKeys_iff` — the first name of an axis that gives something, by cases
* `Bounds.normalize?_eq_some_iff` — normalisation gives the described bounds
* `BoundsSet.get?_ofRecord_eq_some_iff` — a bounds set holds the resolved bounds
-/

namespace YarnPreview

/-! ### The first name that gives something -/

/-- **The first of several names** that gives something: `a` is given under one of
them, and nothing at all under those before it. -/
def FirstGiven {α : Type} (names : List String) (gives : String → α → Prop) (a : α) : Prop :=
  ∃ earlier name later, names = earlier ++ name :: later ∧ gives name a ∧
    ∀ other ∈ earlier, ∀ b, ¬ gives other b

/-- A search through names finds what the first of them gives. -/
theorem findSome?_eq_some_iff_firstGiven {α : Type} {names : List String}
    {search : String → Option α} {gives : String → α → Prop}
    (h : ∀ name a, search name = some a ↔ gives name a) (a : α) :
    names.findSome? search = some a ↔ FirstGiven names gives a := by
  have hnone : ∀ name, search name = none ↔ ∀ b, ¬ gives name b := by
    intro name
    rw [Option.eq_none_iff_forall_ne_some]
    exact forall_congr' fun b => not_congr (h name b)
  simp only [List.findSome?_eq_some_iff, FirstGiven, h, hnone]

/-- A search through names depends on what it finds under them and on nothing else. -/
theorem findSome?_congr {α : Type} {names : List String} {search other : String → Option α}
    (h : ∀ name ∈ names, search name = other name) :
    names.findSome? search = names.findSome? other := by
  induction names with
  | nil => rfl
  | cons name rest ih =>
      obtain ⟨hname, hrest⟩ := List.forall_mem_cons.mp h
      rw [List.findSome?_cons, List.findSome?_cons, hname, ih hrest]

section Names

variable {α : Type} {gives : String → α → Prop} {axis : Axis} {a : α}

/-- Among no names nothing is given. -/
theorem not_firstGiven_nil : ¬ FirstGiven [] gives a := by
  rintro ⟨earlier, name, later, hnames, -⟩
  exact List.append_ne_nil_of_right_ne_nil _ (List.cons_ne_nil _ _) hnames.symm

/-- The first of several names decides, or, where it gives nothing, the others do. -/
theorem firstGiven_cons_iff {name : String} {rest : List String} :
    FirstGiven (name :: rest) gives a ↔
      gives name a ∨ (∀ b, ¬ gives name b) ∧ FirstGiven rest gives a := by
  constructor
  · rintro ⟨earlier, found, later, hnames, hfound, hearlier⟩
    cases earlier with
    | nil =>
        cases hnames
        exact .inl hfound
    | cons first earlier =>
        obtain ⟨hfirst, hnothing⟩ := List.forall_mem_cons.mp hearlier
        cases hnames
        exact .inr ⟨hfirst, earlier, found, later, rfl, hfound, hnothing⟩
  · rintro (hname | ⟨hnothing, earlier, found, later, rfl, hfound, hearlier⟩)
    · exact ⟨[], name, rest, rfl, hname, nofun⟩
    · exact ⟨name :: earlier, found, later, rfl, hfound,
        List.forall_mem_cons.mpr ⟨hnothing, hearlier⟩⟩

/-! ### The names of an axis -/

/-- **What is given on an axis.**  Each travel axis goes by its own name; the extrusion axis
goes by `e`, and by `extrusion` where nothing at all is given under `e`. -/
inductive GivenOnAxis (gives : String → α → Prop) : Axis → α → Prop
  | x {a : α} (h : gives "x" a) : GivenOnAxis gives .x a
  | y {a : α} (h : gives "y" a) : GivenOnAxis gives .y a
  | z {a : α} (h : gives "z" a) : GivenOnAxis gives .z a
  | e {a : α} (h : gives "e" a) : GivenOnAxis gives .e a
  | extrusion {a : α} (hnone : ∀ b, ¬ gives "e" b) (h : gives "extrusion" a) :
      GivenOnAxis gives .e a

/-- **The first name of an axis that gives something**, by cases. -/
theorem firstGiven_recordKeys_iff :
    FirstGiven axis.recordKeys gives a ↔ GivenOnAxis gives axis a := by
  constructor
  · cases axis <;>
      simp only [Axis.recordKeys, firstGiven_cons_iff, not_firstGiven_nil, and_false, or_false]
    case x => exact .x
    case y => exact .y
    case z => exact .z
    case e =>
      rintro (h | ⟨hnone, h⟩)
      · exact .e h
      · exact .extrusion hnone h
  · intro h
    cases h with
    | x h => exact firstGiven_cons_iff.mpr (.inl h)
    | y h => exact firstGiven_cons_iff.mpr (.inl h)
    | z h => exact firstGiven_cons_iff.mpr (.inl h)
    | e h => exact firstGiven_cons_iff.mpr (.inl h)
    | extrusion hnone h =>
        exact firstGiven_cons_iff.mpr (.inr ⟨hnone, firstGiven_cons_iff.mpr (.inl h)⟩)

/-- What is given on an axis is given under some name. -/
theorem GivenOnAxis.exists_name (h : GivenOnAxis gives axis a) : ∃ name, gives name a := by
  cases h with
  | x h => exact ⟨"x", h⟩
  | y h => exact ⟨"y", h⟩
  | z h => exact ⟨"z", h⟩
  | e h => exact ⟨"e", h⟩
  | extrusion _ h => exact ⟨"extrusion", h⟩

end Names

namespace Bounds

/-! ### The bounds of an entry -/

/-- A field is defined: it is present and not null. -/
def Defines (fields : Fields Value) (name : String) (value : Value) : Prop :=
  fields.get? name = some value ∧ value.isNull = false

/-- The limit that an entry gives under several names: the double of the first
defined field. -/
def GivesLimit (fields : Fields Value) (aliases : List String) (x : Float) : Prop :=
  ∃ value, FirstGiven aliases (Defines fields) value ∧ value.coerce = x

/-- **An entry describes bounds**: it is an object that gives both limits, each under the
first of its four names that is defined, and they are finite numbers in order. -/
structure Describes (entry : Value) (b : Bounds) : Prop where
  limits : ∃ fields : Fields Value, entry = .object fields ∧
    GivesLimit fields ["min", "min_mm", "minimum", "low"] b.min ∧
    GivesLimit fields ["max", "max_mm", "maximum", "high"] b.max
  finite_min : b.min.isFinite = true
  finite_max : b.max.isFinite = true
  ordered : exactValue b.min ≤ exactValue b.max

/-- Normal bounds, in exact numbers. -/
theorem isNormal_iff (b : Bounds) :
    b.isNormal = true ↔
      b.min.isFinite = true ∧ b.max.isFinite = true ∧ exactValue b.min ≤ exactValue b.max := by
  simp only [isNormal, Bool.and_eq_true, Bool.not_eq_true', decide_eq_false_iff_not, and_assoc]
  refine and_congr_right fun hmin => and_congr_right fun hmax => ?_
  rw [lt_iff_exactValue hmax hmin, not_lt]

/-- The alias search stops at the first defined field. -/
theorem firstDefined?_eq_some_iff (fields : Fields Value) (aliases : List String)
    (value : Value) :
    firstDefined? fields aliases = some value ↔ FirstGiven aliases (Defines fields) value := by
  refine findSome?_eq_some_iff_firstGiven (fun name a => ?_) value
  rw [Option.filter_eq_some_iff, Defines, Bool.not_eq_true']

/-- A finite limit is one that the aliases give; without any, the limit is NaN. -/
theorem limit_eq_iff (fields : Fields Value) (aliases : List String) {x : Float}
    (hx : x.isFinite = true) :
    limit fields aliases = x ↔ GivesLimit fields aliases x := by
  simp only [GivesLimit, ← firstDefined?_eq_some_iff]
  unfold limit
  cases firstDefined? fields aliases with
  | some value => simp
  | none =>
      have hnan : notANumber.isFinite = false := by decide
      constructor
      · intro h
        have hlimit : notANumber = x := h
        rw [← hlimit, hnan] at hx
        cases hx
      · rintro ⟨_, h, _⟩
        cases h

/-- **Normalisation gives the bounds that an entry describes**, and nothing when
it describes none. -/
theorem normalize?_eq_some_iff (entry : Value) (b : Bounds) :
    normalize? entry = some b ↔ Describes entry b := by
  constructor
  · intro h
    obtain ⟨hfields, hnormal⟩ := Option.filter_eq_some_iff.mp h
    obtain ⟨fields, hentry, rfl⟩ := Option.map_eq_some_iff.mp hfields
    obtain ⟨hmin, hmax, hordered⟩ := (isNormal_iff _).mp hnormal
    have hobject : entry = .object fields := Value.fields?_eq_some_iff.mp hentry
    exact ⟨⟨fields, hobject, (limit_eq_iff _ _ hmin).mp rfl, (limit_eq_iff _ _ hmax).mp rfl⟩,
      hmin, hmax, hordered⟩
  · rintro ⟨⟨fields, rfl, hlower, hupper⟩, hmin, hmax, hordered⟩
    refine Option.filter_eq_some_iff.mpr ⟨?_, (isNormal_iff b).mpr ⟨hmin, hmax, hordered⟩⟩
    simp only [Value.fields?, Option.map_some, Option.some.injEq, ofFields, minAliases, maxAliases]
    rw [(limit_eq_iff _ _ hmin).mpr hlower, (limit_eq_iff _ _ hmax).mpr hupper]

/-- Described bounds are in order, as doubles. -/
theorem Describes.min_le_max {entry : Value} {b : Bounds} (h : Describes entry b) :
    b.min ≤ b.max :=
  (le_iff_exactValue h.finite_min h.finite_max).mpr h.ordered

end Bounds

namespace BoundsSet

/-! ### The bounds of a record -/

/-- **A record gives bounds on an axis**: it is an object, and the first of the
axis's names whose entry describes any bounds describes these. -/
def Resolves (record : Value) (axis : Axis) (b : Bounds) : Prop :=
  ∃ fields : Fields Value, record = .object fields ∧
    GivenOnAxis
      (fun key bounds => ∃ entry, fields.get? key = some entry ∧ Bounds.Describes entry bounds)
      axis b

/-- **A bounds set holds the bounds that its record resolves to.** -/
theorem get?_ofRecord_eq_some_iff (record : Value) (axis : Axis) (b : Bounds) :
    (ofRecord record).get? axis = some b ↔ Resolves record axis b := by
  rw [get?_ofRecord]
  cases record with
  | object fields =>
      simp only [Value.fields?, Option.bind_some, Resolves, Value.object.injEq,
        exists_eq_left', ← firstGiven_recordKeys_iff]
      refine findSome?_eq_some_iff_firstGiven (fun key bounds => ?_) b
      simp only [Option.bind_eq_some_iff, Bounds.normalize?_eq_some_iff]
  | _ => simp [Value.fields?, Resolves]

/-- Nothing is known on an axis exactly when the record resolves to nothing
there. -/
theorem get?_ofRecord_eq_none_iff (record : Value) (axis : Axis) :
    (ofRecord record).get? axis = none ↔ ∀ b, ¬ Resolves record axis b := by
  rw [Option.eq_none_iff_forall_ne_some]
  exact forall_congr' fun b => not_congr (get?_ofRecord_eq_some_iff record axis b)

/-- **Only the names of the axes are read**: two objects that have the same entries
under them give the same bounds set. -/
theorem ofRecord_congr {fields others : Fields Value}
    (h : ∀ axis : Axis, ∀ key ∈ axis.recordKeys, fields.get? key = others.get? key) :
    ofRecord (.object fields) = ofRecord (.object others) := by
  refine AxisMap.ext_get? ?_
  intro axis
  rw [get?_ofRecord, get?_ofRecord]
  show axis.recordKeys.findSome? _ = axis.recordKeys.findSome? _
  refine findSome?_congr ?_
  intro key hkey
  rw [h axis key hkey]

/-- What a record resolves to is normal: whichever entry won, it was usable. -/
theorem Resolves.describes {record : Value} {axis : Axis} {b : Bounds}
    (h : Resolves record axis b) : ∃ entry, Bounds.Describes entry b := by
  obtain ⟨fields, -, hgiven⟩ := h
  obtain ⟨key, entry, -, hentry⟩ := hgiven.exists_name
  exact ⟨entry, hentry⟩

end BoundsSet

end YarnPreview
