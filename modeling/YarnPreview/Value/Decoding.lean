import YarnPreview.Value.Basic

/-!
# Strict decoding

Beside the lenient readers stands a strict one, which accepts exactly the shapes
that this library itself writes: no coercion, no aliases, no checks of meaning.
It either gives the decoded value or nothing.

## Main definitions

* `indexLimit` — step indices are sixty-four-bit words
* `Value.float?`, `Value.index?` — a number as a double, or as a step index
* `Value.optional?` — a value that may be null
* `Value.layout?` — the members of a record, given by name or by position

## The two layouts

A record with named members may be written as an object, where other fields are
ignored, or as an array of its members in their order.  `Value.layout?` turns
both into one list, with `none` for a member that an object does not have; how
many trailing members an array may leave out is a parameter.
-/

namespace YarnPreview

/-- Step indices are below this number, two to the sixty-fourth. -/
def indexLimit : Nat := 0x1_0000_0000_0000_0000

namespace Value

/-- A number, as the double nearest to it. -/
def float? : Value → Option Float
  | number n => some n.toFloat
  | _ => none

/-- A step index: a whole number from zero to below `indexLimit`.  A double is
refused, even a whole one. -/
def index? : Value → Option Nat
  | number (.integer n) =>
      if 0 ≤ n ∧ n.toNat < indexLimit then some n.toNat else none
  | _ => none

/-- A member that may be absent or null. -/
def optional? {α : Type} (decode : Value → Option α) : Option Value → Option (Option α)
  | none => some none
  | some null => some none
  | some value => (decode value).map some

/-- A member that has to be there. -/
def required? {α : Type} (decode : Value → Option α) : Option Value → Option α :=
  (·.bind decode)

/-- **The members of a record**, in the order of `members`.  An array gives them
by position: no more than there are, and no fewer than all but `omissible`. -/
def layout? (members : List String) (omissible : Nat) : Value → Option (List (Option Value))
  | object fields => some (members.map (Fields.get? fields))
  | array items =>
      if items.length ≤ members.length ∧ members.length ≤ items.length + omissible then
        some (items.map some ++ List.replicate (members.length - items.length) none)
      else none
  | _ => none

end Value

end YarnPreview
