import YarnPreview.Value.Basic

/-!
# Axes

The machine moves along three travel axes and feeds yarn along a fourth.  This
module names them and gives the type of things that are known for some axes and
not for others.

## Main definitions

* `Axis`, `Axis.all` — the four axes, in the order in which they are reported
* `Axis.recordKeys` — the names under which a record may describe an axis
* `AxisMap` — at most one thing per axis
-/

namespace YarnPreview

/-- The travel axes `x`, `y`, `z` and the extrusion axis `e`. -/
inductive Axis where
  | x
  | y
  | z
  | e
  deriving DecidableEq, Repr

namespace Axis

/-- Every axis, in reporting order. -/
def all : List Axis := [x, y, z, e]

/-- The name of an axis, in texts and in records. -/
def name : Axis → String
  | x => "x"
  | y => "y"
  | z => "z"
  | e => "e"

/-- **The names under which a record may describe an axis**, the preferred one
first.  Names match exactly. -/
def recordKeys : Axis → List String
  | x => ["x"]
  | y => ["y"]
  | z => ["z"]
  | e => ["e", "extrusion"]

@[simp] theorem mem_all (axis : Axis) : axis ∈ all := by
  cases axis <;> simp [all]

/-- The axis of a given name. -/
def ofName? (text : String) : Option Axis :=
  all.find? (·.name = text)

@[simp] theorem ofName?_name (axis : Axis) : ofName? axis.name = some axis := by
  cases axis <;> rfl

/-- Several axes in a sentence, set off by commas. -/
def listing (axes : List Axis) : String :=
  ", ".intercalate (axes.map name)

/-- An axis in a record: its name. -/
def toRecord (axis : Axis) : Value :=
  .string axis.name

/-- An axis decoded strictly: its name, or an object whose only field is the
name with nothing in it. -/
def decode? : Value → Option Axis
  | .string text => ofName? text
  | .object [(text, .null)] => ofName? text
  | _ => none

@[simp] theorem decode?_toRecord (axis : Axis) : decode? axis.toRecord = some axis :=
  ofName?_name axis

end Axis

/-- **At most one thing per axis.** -/
structure AxisMap (α : Type) where
  x : Option α
  y : Option α
  z : Option α
  e : Option α
  deriving DecidableEq

namespace AxisMap

variable {α β γ : Type}

/-- Nothing on any axis. -/
def empty : AxisMap α := ⟨none, none, none, none⟩

/-- What is known for an axis. -/
def get? (map : AxisMap α) : Axis → Option α
  | .x => map.x
  | .y => map.y
  | .z => map.z
  | .e => map.e

/-- The map with one axis replaced. -/
def set (map : AxisMap α) (axis : Axis) (entry : Option α) : AxisMap α :=
  match axis with
  | .x => { map with x := entry }
  | .y => { map with y := entry }
  | .z => { map with z := entry }
  | .e => { map with e := entry }

/-- The map that a rule gives axis by axis. -/
def ofFn (rule : Axis → Option α) : AxisMap α :=
  ⟨rule .x, rule .y, rule .z, rule .e⟩

/-- Two maps combined on the axes that both know. -/
def zipWith (combine : α → β → γ) (left : AxisMap α) (right : AxisMap β) : AxisMap γ :=
  ofFn fun axis => (left.get? axis).bind fun a => (right.get? axis).map (combine a)

/-- The axes about which nothing is known, in reporting order. -/
def missing (map : AxisMap α) : List Axis :=
  Axis.all.filter fun axis => (map.get? axis).isNone

/-- The axes about which something is known, with what is known. -/
def entries (map : AxisMap α) : List (Axis × α) :=
  Axis.all.filterMap fun axis => (map.get? axis).map (axis, ·)

@[simp] theorem get?_empty (axis : Axis) : (empty : AxisMap α).get? axis = none := by
  cases axis <;> rfl

@[simp] theorem get?_ofFn (rule : Axis → Option α) (axis : Axis) :
    (ofFn rule).get? axis = rule axis := by
  cases axis <;> rfl

/-- Setting an axis changes that axis and no other. -/
theorem get?_set (map : AxisMap α) (axis other : Axis) (entry : Option α) :
    (map.set axis entry).get? other = if other = axis then entry else map.get? other := by
  cases axis <;> cases other <;> rfl

@[simp] theorem get?_zipWith (combine : α → β → γ) (left : AxisMap α) (right : AxisMap β)
    (axis : Axis) :
    (zipWith combine left right).get? axis =
      (left.get? axis).bind fun a => (right.get? axis).map (combine a) := by
  simp [zipWith]

/-- Two maps that agree on every axis are one map. -/
theorem ext_get? {left right : AxisMap α} (h : ∀ axis, left.get? axis = right.get? axis) :
    left = right := by
  cases left
  cases right
  have hx := h .x
  have hy := h .y
  have hz := h .z
  have he := h .e
  simp only [get?] at hx hy hz he
  simp [hx, hy, hz, he]

/-- A map in a record: one field per axis, null where nothing is known. -/
def toRecord (encode : α → Value) (map : AxisMap α) : Value :=
  .ofFields (Axis.all.map fun axis => (axis.name, .ofOption encode (map.get? axis)))

/-- A map in a record, with fields for the known axes only. -/
def toSparseRecord (encode : α → Value) (map : AxisMap α) : Value :=
  .ofFields (map.entries.map fun entry => (entry.1.name, encode entry.2))

end AxisMap

end YarnPreview
