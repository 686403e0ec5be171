/-!
# Rounding a quotient

Sizes are printed with a fixed number of decimals, so an exact quotient of
natural numbers has to be replaced by a whole one.  The nearest is taken; what
happens at an exact half is a parameter, because the units of a file size do not
agree on it.

## Main definitions

* `Tie` — where an exact half goes
* `roundDiv` — the nearest whole number to a quotient
* `fixedPoint` — a whole number of tenths, hundredths, …, as text
-/

namespace YarnPreview

/-- Where a quotient that lies exactly between two whole numbers goes. -/
inductive Tie where
  /-- To the larger neighbour. -/
  | up
  /-- To the neighbour that is even. -/
  | toEven
  deriving DecidableEq, Repr

/-- **The nearest whole number** to `num / den`.  Twice the remainder against the
divisor tells the side; at equality `tie` decides. -/
def roundDiv (tie : Tie) (num den : Nat) : Nat :=
  let whole := num / den
  let twice := 2 * (num % den)
  if twice < den then whole
  else if den < twice then whole + 1
  else match tie with
    | .up => whole + 1
    | .toEven => if whole % 2 = 0 then whole else whole + 1

/-- **Fixed decimals**: `count` units of `10 ^ -places`, written with exactly
`places` digits after the point, or as a plain whole number when `places` is
zero. -/
def fixedPoint (places count : Nat) : String :=
  let step := Nat.pow 10 places
  let whole := toString (count / step)
  if places = 0 then whole
  else
    let digits := toString (count % step)
    whole ++ "." ++ String.ofList (List.replicate (places - digits.length) '0') ++ digits

end YarnPreview
