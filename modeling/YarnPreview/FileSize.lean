import YarnPreview.Number.Magnitude

/-!
# File sizes

Sizes of uploads, as people read them.

## Main definitions

* `SizeUnit` — bytes, kilobytes, megabytes, with the decimals each is shown with
* `FileSize` — a size as shown: a count of the unit's smallest shown step
* `FileSize.ofBytes?`, `FileSize.text` — choosing and writing it
* `uploadRejection?` — why an upload is refused

## How each unit rounds

**Bytes** are rounded to a whole number and **kilobytes** to tenths, a half going
up in both.  The tenths are rounded from the double `bytes / 1024 * 10`, which is
itself rounded, and then divided by ten, which is rounded again before the result
is written with one decimal.  **Megabytes** are rounded to hundredths, from the
exact value of the double `bytes / 1048576`, a half going to the even neighbour.

The unit is chosen before rounding, so a size just below a limit may be shown as
a full `1024 B` or `1024.0 kB`.
-/

namespace YarnPreview

/-- The units of a file size. -/
inductive SizeUnit where
  | byte
  | kilobyte
  | megabyte
  deriving DecidableEq, Repr

namespace SizeUnit

/-- The bytes in one unit. -/
def bytes : SizeUnit → Nat
  | byte => 1
  | kilobyte => 1024
  | megabyte => 1024 * 1024

/-- The decimals that the unit is shown with. -/
def places : SizeUnit → Nat
  | byte => 0
  | kilobyte => 1
  | megabyte => 2

/-- The symbol written after the number. -/
def symbol : SizeUnit → String
  | byte => "B"
  | kilobyte => "kB"
  | megabyte => "MB"

end SizeUnit

/-- **A size as shown**: `count` steps of the last decimal of its unit. -/
structure FileSize where
  count : Nat
  unit : SizeUnit
  deriving DecidableEq, Repr

namespace FileSize

/-- The bytes in a kilobyte, as a double. -/
def kilo : Float := 1024.0

/-- The bytes in a megabyte, as a double. -/
def mega : Float := 1048576.0

/-- The unit in which a size is shown. -/
def unitOf (bytes : Float) : SizeUnit :=
  if bytes < kilo then .byte
  else if mega ≤ bytes then .megabyte
  else .kilobyte

/-- The count of the last decimal of a unit, for a number of bytes. -/
def countOf? (bytes : Float) : SizeUnit → Option Nat
  | .byte => decimals? .up 0 bytes
  | .kilobyte =>
      (decimals? .up 0 (bytes / kilo * 10.0)).bind fun tenths =>
        decimals? .toEven 1 (Float.ofNat tenths / 10.0)
  | .megabyte => decimals? .toEven 2 (bytes / mega)

/-- **The shown size of a number of bytes**; a negative or non-finite number has
none. -/
def ofBytes? (bytes : Float) : Option FileSize :=
  if !bytes.isFinite || decide (bytes < 0.0) then none
  else
    let unit := unitOf bytes
    (countOf? bytes unit).map fun count => { count, unit }

/-- The size in words: the number, a space and the symbol. -/
def text (size : FileSize) : String :=
  fixedPoint size.unit.places size.count ++ " " ++ size.unit.symbol

/-- **A number of bytes in words.** -/
def describe? (bytes : Float) : Option String :=
  (ofBytes? bytes).map text

end FileSize

/-- A half goes up among tenths of a kilobyte … -/
example : FileSize.describe? 1280.0 = some "1.3 kB" := by decide +kernel

/-- … and to the even neighbour among hundredths of a megabyte. -/
example : FileSize.describe? 1179648.0 = some "1.12 MB" := by decide +kernel

/-- The unit is chosen before rounding. -/
example : FileSize.describe? 1023.5 = some "1024 B" := by decide +kernel

/-- The largest upload that is accepted, in bytes. -/
def uploadLimit : Nat := 10 * 1024 * 1024

/-- **Why an upload of this size is refused**; nothing when it is accepted, or
when its size is no finite number. -/
def uploadRejection? (bytes : Float) : Option String :=
  let limit := Float.ofNat uploadLimit
  if !bytes.isFinite || decide (bytes ≤ limit) then none
  else do
    let size ← FileSize.describe? bytes
    let allowed ← FileSize.describe? limit
    return "Planner JSON is " ++ size ++ "; uploads are limited to " ++ allowed ++ "."

end YarnPreview
