import YarnPreview.Number.Numeral
import YarnPreview.Text.Blank
import YarnPreview.Value.Basic

/-!
# Numeric coercion

Records are written by hand and by several exporters, so a measurement may be a
number, a text, a truth value or a number wrapped in an array.  `Value.coerce`
reads all of these as a double; what cannot be read is NaN, never an error.

## Main definitions

* `coerceText` — the double that a text denotes
* `Value.coerce` — the double that a record value denotes
-/

namespace YarnPreview

/-- **The double of a text**, its outer blanks aside: an empty text is zero, a
numeral is what it denotes, and everything else is NaN. -/
def coerceText (text : List Char) : Float :=
  match Text.trim text with
  | [] => 0.0
  | trimmed => (Numeral.parse? trimmed).elim notANumber Numeral.toFloat

@[simp] theorem coerceText_nil : coerceText [] = 0.0 := rfl

namespace Value

/-- **The double of a record value.**  Null and the empty array are zero, truth
values are one and zero, and an array of one item is that item; longer arrays
and objects are NaN. -/
def coerce : Value → Float
  | null => 0.0
  | bool b => if b then 1.0 else 0.0
  | number n => n.toFloat
  | string s => coerceText s.toList
  | array [] => 0.0
  | array [item] => item.coerce
  | array (_ :: _ :: _) => notANumber
  | object _ => notANumber

@[simp] theorem coerce_null : coerce null = 0.0 := rfl

@[simp] theorem coerce_number (n : Number) : coerce (number n) = n.toFloat := rfl

@[simp] theorem coerce_string (s : String) : coerce (string s) = coerceText s.toList := rfl

@[simp] theorem coerce_array_nil : coerce (array []) = 0.0 := rfl

@[simp] theorem coerce_array_singleton (item : Value) :
    coerce (array [item]) = item.coerce := rfl

@[simp] theorem coerce_object (fields : Fields Value) :
    coerce (object fields) = notANumber := rfl

/-- A text may be padded, signed and scaled … -/
example : coerce (string " -1.5e2\n") = -150.0 := by decide +kernel

/-- … or marked with a base, but not both signed and marked. -/
example : coerce (string "0x10") = 16.0 ∧ (coerce (string "-0x10")).isNaN = true := by
  decide +kernel

/-- The double of a field, NaN when the field is absent. -/
def coerceField (fields : Fields Value) (name : String) : Float :=
  (fields.get? name).elim notANumber coerce

/-- The double of a field, kept only when the field is there and its double is
finite. -/
def finiteField? (fields : Fields Value) (name : String) : Option Float :=
  ((fields.get? name).map coerce).filter Float.isFinite

end Value

end YarnPreview
