import YarnPreview.Number.Rounding

/-!
# The exact magnitude of a double

A finite double is a whole mantissa times a power of two.  Printing a size
rounds that exact value, never a decimal approximation of it, so the value is
read off as a quotient of two natural numbers.

## Main definitions

* `Magnitude` — a mantissa and a binary exponent
* `Magnitude.ofFloat?` — the absolute value of a finite double
* `Magnitude.decimals`, `decimals?` — the value in units of `10 ^ -places`, rounded
-/

namespace YarnPreview

/-- The non-negative number `mantissa * 2 ^ exponent`. -/
structure Magnitude where
  mantissa : Nat
  exponent : Int
  deriving DecidableEq, Repr

namespace Magnitude

/-- The absolute value of a finite double, exactly; an infinity or a NaN has
none. -/
def ofFloat? (x : Float) : Option Magnitude :=
  match x.toModel.unpack with
  | .zero _ => some ⟨0, 0⟩
  | .finite _ mantissa exponent _ => some ⟨mantissa, exponent⟩
  | .infinity _ => none
  | .notANumber => none

/-- The magnitude as a quotient: its numerator carries a non-negative
exponent … -/
def numerator (m : Magnitude) : Nat :=
  m.mantissa * Nat.pow 2 m.exponent.toNat

/-- … and its denominator a negative one. -/
def denominator (m : Magnitude) : Nat :=
  Nat.pow 2 (-m.exponent).toNat

/-- The denominator is a power of two, hence positive. -/
theorem denominator_pos (m : Magnitude) : 0 < m.denominator :=
  Nat.two_pow_pos _

/-- **The magnitude in decimals**: the nearest whole number of units
`10 ^ -places`, with ties as `tie` says. -/
def decimals (tie : Tie) (places : Nat) (m : Magnitude) : Nat :=
  roundDiv tie (m.numerator * Nat.pow 10 places) m.denominator

end Magnitude

/-- **A double in decimals**: its magnitude in units of `10 ^ -places`, rounded.  An
infinity or a NaN has none. -/
def decimals? (tie : Tie) (places : Nat) (x : Float) : Option Nat :=
  (Magnitude.ofFloat? x).map (·.decimals tie places)

end YarnPreview
