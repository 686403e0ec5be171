import YarnPreview.Value.Fields

/-!
# Record values

Planner exports and machine profiles arrive as records: trees of nulls, truth
values, numbers, texts, arrays and named fields.  Nothing about their shape is
promised, so every reader of this library starts from `Value`.

## Main definitions

* `Number` — a whole number, or a finite double
* `Value` — a record value
* `Value.ofFloatOrNull`, `Value.ofFloatOrName` — the two ways a double enters a
  record

## Design notes

**Numbers.**  A whole number keeps its digits, because a step index must be one
and a double is not accepted in its place.  Everywhere else a number is the
double nearest to it.  No record holds a NaN or an infinity as a number: the
double of `Number.double` carries the proof that it is finite.

**Doubles outside the range.**  A computed result that is not finite is written
as `null`.  A measurement that comes in as NaN or as an infinity is kept by its
name instead, as a text that numeric coercion reads back.
-/

namespace YarnPreview

/-- A number in a record. -/
inductive Number where
  /-- A whole number. -/
  | integer (n : Int)
  /-- A finite double. -/
  | double (x : Float) (finite : x.isFinite = true)
  deriving DecidableEq

namespace Number

/-- The double nearest to a number. -/
def toFloat : Number → Float
  | integer n => Float.ofInt n
  | double x _ => x

@[simp] theorem toFloat_double (x : Float) (h : x.isFinite = true) :
    (double x h).toFloat = x := rfl

/-- A finite double as a number. -/
def ofFloat? (x : Float) : Option Number :=
  if h : x.isFinite = true then some (double x h) else none

theorem ofFloat?_of_isFinite {x : Float} (h : x.isFinite = true) :
    ofFloat? x = some (double x h) := by
  simp [ofFloat?, h]

end Number

/-- **A record value.**  The fields of an object ascend by name. -/
inductive Value where
  | null
  | bool (b : Bool)
  | number (n : Number)
  | string (s : String)
  | array (items : List Value)
  | object (fields : List (String × Value))
  deriving Inhabited

namespace Value

/-- Is this the null value? -/
def isNull : Value → Bool
  | null => true
  | _ => false

/-- The fields of an object. -/
def fields? : Value → Option (Fields Value)
  | object fields => some fields
  | _ => none

/-- The items of an array. -/
def items? : Value → Option (List Value)
  | array items => some items
  | _ => none

/-- The characters of a text. -/
def string? : Value → Option String
  | string s => some s
  | _ => none

theorem fields?_eq_some_iff {value : Value} {fields : Fields Value} :
    value.fields? = some fields ↔ value = object fields := by
  cases value <;> simp [fields?]

theorem items?_eq_some_iff {value : Value} {items : List Value} :
    value.items? = some items ↔ value = array items := by
  cases value <;> simp [items?]

/-- The value of a named field; only an object has any. -/
def field? (value : Value) (name : String) : Option Value :=
  value.fields?.bind (·.get? name)

@[simp] theorem field?_object (fields : Fields Value) (name : String) :
    (object fields).field? name = fields.get? name := rfl

/-- The object with the given fields, put in order. -/
def ofFields (pairs : List (String × Value)) : Value :=
  object (Fields.ofList pairs)

/-- A natural number, as a whole number of a record. -/
def ofNat (n : Nat) : Value :=
  number (.integer n)

/-- A value that may be absent; absence is written as null. -/
def ofOption {α : Type} (encode : α → Value) : Option α → Value
  | some a => encode a
  | none => null

/-- **A computed double**: a number when it is finite, null otherwise. -/
def ofFloatOrNull (x : Float) : Value :=
  ofOption number (Number.ofFloat? x)

/-- The name of a double that is no number or not finite. -/
def nonFiniteName (x : Float) : String :=
  if x.isNaN then "NaN" else if 0.0 < x then "Infinity" else "-Infinity"

/-- **A measured double**: a number when it is finite, its name otherwise. -/
def ofFloatOrName (x : Float) : Value :=
  match Number.ofFloat? x with
  | some n => number n
  | none => string (nonFiniteName x)

theorem ofFloatOrNull_of_isFinite {x : Float} (h : x.isFinite = true) :
    ofFloatOrNull x = number (.double x h) := by
  simp [ofFloatOrNull, Number.ofFloat?_of_isFinite h, ofOption]

theorem ofFloatOrName_of_isFinite {x : Float} (h : x.isFinite = true) :
    ofFloatOrName x = number (.double x h) := by
  simp [ofFloatOrName, Number.ofFloat?_of_isFinite h]

end Value

end YarnPreview
