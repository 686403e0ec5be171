/-!
# Numerals

The texts that denote a number, and the double each one denotes.

## Main definitions

* `Radix` — the three marked bases: `0x`, `0o`, `0b`
* `Decimal` — sign, coefficient and power of ten of a decimal numeral
* `Numeral` — what a text of a number can be read as
* `Numeral.double?` — the general reader of doubles
* `Numeral.parse?` — the text of a numeral, read as a whole or not at all
* `Numeral.toFloat` — the double it denotes

## The grammar

* `Infinity`, `+Infinity`, `-Infinity`, in exactly this spelling;
* `0x`, `0o` or `0b`, the letter in either case, then one or more digits of that
  base and no sign;
* an optional sign, then `digits`, `digits.`, `digits.digits` or `.digits`, then
  optionally `e` or `E`, an optional sign and digits.

Reading and valuing are separate: `parse?` never touches a double, so which
texts are numerals is a statement about characters alone.

Decimals are left to a general reader of doubles, which knows more than they: it
also accepts `inf`, `infinity` and `nan`, in any letter case and after a sign.
A screen in front of it turns away every text with a letter other than the mark
of a power.

### The two values

**Decimals are exact until the end.**  A decimal is a natural coefficient and an
integer power of ten; one correctly rounded conversion gives its double, however
long the text is.

**Marked whole numbers round at every digit.**  Their double is the fold
`acc * base + digit` in double arithmetic, which for long texts can differ from
the nearest double of the whole number they spell.
-/

namespace YarnPreview

/-- The double that is no number. -/
def notANumber : Float := 0.0 / 0.0

/-- The double above every finite one, or below when `negative`. -/
def infinite (negative : Bool) : Float :=
  if negative then -1.0 / 0.0 else 1.0 / 0.0

/-- Split a leading sign off a text: is there a minus, and what follows. -/
def splitSign : List Char → Bool × List Char
  | '-' :: rest => (true, rest)
  | '+' :: rest => (false, rest)
  | text => (false, text)

/-- The value of a digit character, hexadecimal letters included. -/
def digitValue? (c : Char) : Option Nat :=
  if c.isDigit then some (c.toNat - '0'.toNat)
  else if 'a' ≤ c && c ≤ 'f' then some (c.toNat - 'a'.toNat + 10)
  else if 'A' ≤ c && c ≤ 'F' then some (c.toNat - 'A'.toNat + 10)
  else none

/-- The whole number that a text of decimal digits spells. -/
def digitsValue (digits : List Char) : Nat :=
  digits.foldl (fun acc c => 10 * acc + (c.toNat - '0'.toNat)) 0

/-! ### Marked whole numbers -/

/-- The bases that a numeral can announce by a mark after its leading zero. -/
inductive Radix where
  | binary
  | octal
  | hexadecimal
  deriving DecidableEq, Repr

namespace Radix

/-- The base as a number. -/
def base : Radix → Nat
  | binary => 2
  | octal => 8
  | hexadecimal => 16

/-- The base announced by the character after the leading zero. -/
def ofMark? : Char → Option Radix
  | 'b' | 'B' => some binary
  | 'o' | 'O' => some octal
  | 'x' | 'X' => some hexadecimal
  | _ => none

/-- The value of a character as a digit of this base. -/
def digit? (radix : Radix) (c : Char) : Option Nat :=
  (digitValue? c).filter (· < radix.base)

/-- The digits of a non-empty text, every character of which is a digit of this
base. -/
def digits? (radix : Radix) : List Char → Option (List Nat)
  | [] => none
  | text => text.mapM radix.digit?

/-- **The folded value**: each digit enters by one multiplication and one
addition of doubles, both rounded. -/
def fold (radix : Radix) (digits : List Nat) : Float :=
  digits.foldl (fun acc d => acc * Float.ofNat radix.base + Float.ofNat d) 0.0

@[simp] theorem fold_nil (radix : Radix) : radix.fold [] = 0.0 := rfl

/-- One more digit is one more step of the fold. -/
theorem fold_concat (radix : Radix) (digits : List Nat) (d : Nat) :
    radix.fold (digits ++ [d]) =
      radix.fold digits * Float.ofNat radix.base + Float.ofNat d := by
  simp [fold]

end Radix

/-! ### Decimals -/

/-- A decimal numeral: `coefficient * 10 ^ exponent`, negated when `negative`.
The sign is kept apart so that a negative zero is not lost. -/
structure Decimal where
  negative : Bool
  coefficient : Nat
  exponent : Int
  deriving DecidableEq, Repr

namespace Decimal

/-- The power of ten written at the end of a decimal: nothing at all is zero,
otherwise a mark, an optional sign and at least one digit. -/
def exponent? : List Char → Option Int
  | [] => some 0
  | mark :: rest =>
      let (negative, digits) := splitSign rest
      if (mark == 'e' || mark == 'E') && !digits.isEmpty && digits.all Char.isDigit then
        some (if negative then -(digitsValue digits : Int) else digitsValue digits)
      else none

/-- The digits after a point, if a point comes next, and what is left. -/
def splitFraction : List Char → List Char × List Char
  | '.' :: rest => (rest.takeWhile Char.isDigit, rest.dropWhile Char.isDigit)
  | text => ([], text)

/-- **Reading a decimal.**  Digits on at least one side of the point are needed,
and nothing may be left over. -/
def parse? (text : List Char) : Option Decimal :=
  let (negative, unsigned) := splitSign text
  let whole := unsigned.takeWhile Char.isDigit
  let (fraction, tail) := splitFraction (unsigned.dropWhile Char.isDigit)
  if whole.isEmpty && fraction.isEmpty then none
  else (exponent? tail).map fun exponent =>
    { negative
      coefficient := digitsValue (whole ++ fraction)
      exponent := exponent - fraction.length }

/-- The nearest double, ties to even; beyond the range an infinity, below it a
zero, either with the sign of the numeral. -/
def toFloat (d : Decimal) : Float :=
  let magnitude :=
    if 0 ≤ d.exponent then Float.ofScientific d.coefficient false d.exponent.toNat
    else Float.ofScientific d.coefficient true (-d.exponent).toNat
  if d.negative then -magnitude else magnitude

end Decimal

/-! ### Numerals -/

/-- What a text of a number can be read as. -/
inductive Numeral where
  /-- A spelled-out infinity. -/
  | infinity (negative : Bool)
  /-- The name of what is no number. -/
  | undefined
  /-- A whole number in a marked base, by its digits from the left. -/
  | marked (radix : Radix) (digits : List Nat)
  /-- A decimal. -/
  | decimal (value : Decimal)
  deriving DecidableEq, Repr

namespace Numeral

/-- A spelled-out infinity, in one of its three spellings. -/
def infinity? (text : List Char) : Option Numeral :=
  if text = "Infinity".toList ∨ text = "+Infinity".toList then some (.infinity false)
  else if text = "-Infinity".toList then some (.infinity true)
  else none

/-- The base that the first two characters announce, with the text after
them. -/
def mark? : List Char → Option (Radix × List Char)
  | '0' :: letter :: rest => (Radix.ofMark? letter).map (·, rest)
  | _ => none

/-- The names of the doubles that are not finite, after an optional sign and in
any letter case. -/
def special? (text : List Char) : Option Numeral :=
  let (negative, unsigned) := splitSign text
  let name := unsigned.map Char.toLower
  if name = "inf".toList ∨ name = "infinity".toList then some (.infinity negative)
  else if name = "nan".toList then some .undefined
  else none

/-- **The general reader of doubles**: a decimal, or one of the special names. -/
def double? (text : List Char) : Option Numeral :=
  ((Decimal.parse? text).map .decimal).or (special? text)

/-- An ASCII letter other than the mark of a power. -/
def isStray (c : Char) : Bool :=
  c.isAlpha && !(c == 'e' || c == 'E')

/-- **Reading a numeral.**  A mark commits: a text that announces a base is read
in that base or not at all.  The general reader sees no text with a stray
letter. -/
def parse? (text : List Char) : Option Numeral :=
  (infinity? text).or <|
    match mark? text with
    | some (radix, digits) => (radix.digits? digits).map (.marked radix)
    | none => if text.any isStray then none else double? text

/-- **The double that a numeral denotes.** -/
def toFloat : Numeral → Float
  | infinity negative => infinite negative
  | undefined => notANumber
  | marked radix digits => radix.fold digits
  | decimal value => value.toFloat

end Numeral

end YarnPreview
