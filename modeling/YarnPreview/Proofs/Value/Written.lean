import Mathlib
import YarnPreview.Value.Coercion
import YarnPreview.Value.Decoding
import YarnPreview.Proofs.Value.Lookup

/-!
# What is written, read again

Results are written into records member by member, and a member that is absent is written
as null, like a double that is not finite.  This module says what the readers make of such
a member, the strict ones and the lenient ones, so that the round trip of a structure is put
together from those of its members.

## Main statements

* `Value.coerce_ofFloatOrNull`, `Value.float?_ofFloatOrNull` — a written double, coerced and
  decoded
* `Value.optional?_ofOption` — a member that may be absent
* `Value.layout?_ofFields` — the members of an object that was written out

## Three meanings of null

**Absent** is what strict decoding takes a null for where a member may be absent.  **Zero** is
what numeric coercion takes it for.  **Undefined** is what a search through names takes it
for, and goes on to the next one.  Which of the three applies is decided by the reader alone,
since the record is the same.
-/

namespace YarnPreview

namespace Value

/-! ### Doubles -/

/-- A double that is not finite is written as null. -/
theorem ofFloatOrNull_of_not_isFinite {x : Float} (h : x.isFinite = false) :
    ofFloatOrNull x = .null := by
  have hnumber : Number.ofFloat? x = none := dif_neg (by simp [h])
  rw [ofFloatOrNull, hnumber]
  rfl

/-- **A written double, coerced**, is itself when it is finite and zero when it is not. -/
theorem coerce_ofFloatOrNull (x : Float) :
    (ofFloatOrNull x).coerce = if x.isFinite then x else 0.0 := by
  cases h : x.isFinite with
  | true =>
      rw [ofFloatOrNull_of_isFinite h]
      rfl
  | false =>
      rw [ofFloatOrNull_of_not_isFinite h]
      rfl

/-- **A written double, decoded**, is itself, bit for bit. -/
theorem float?_ofFloatOrNull {x : Float} (h : x.isFinite = true) :
    (ofFloatOrNull x).float? = some x := by
  rw [ofFloatOrNull_of_isFinite h]
  rfl

/-! ### Members -/

/-- **A member that may be absent** is decoded as it was written, when every value that is
there is and null is none. -/
theorem optional?_ofOption {α : Type} {decode : Value → Option α} {encode : α → Value}
    {member : Option α} (hnull : decode .null = none)
    (h : ∀ a, member = some a → decode (encode a) = some a) :
    optional? decode (some (ofOption encode member)) = some member := by
  cases member with
  | none => rfl
  | some a =>
      have ha := h a rfl
      show optional? decode (some (encode a)) = some (some a)
      cases hencoded : encode a with
      | null =>
          rw [hencoded, hnull] at ha
          cases ha
      | _ =>
          rw [hencoded] at ha
          exact congrArg (Option.map some) ha

/-- **The members of an object that was written out**, in the order in which they were. -/
theorem layout?_ofFields (omissible : Nat) {pairs : List (String × Value)}
    (h : (Fields.names pairs).Nodup) :
    layout? (Fields.names pairs) omissible (ofFields pairs) =
      some (pairs.map fun pair => some pair.2) := by
  show some ((pairs.map Prod.fst).map (Fields.get? (Fields.ofList pairs))) = _
  rw [List.map_map]
  refine congrArg some (List.map_congr_left ?_)
  intro pair hpair
  rw [Function.comp_apply, Fields.get?_ofList h]
  exact Fields.get?_of_mem h hpair

end Value

end YarnPreview
