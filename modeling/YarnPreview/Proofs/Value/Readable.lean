import Mathlib
import YarnPreview.Proofs.Number.Grammar
import YarnPreview.Proofs.Number.Sign
import YarnPreview.Proofs.Text.Trimming
import YarnPreview.Value.Coercion

/-!
# The values that denote a number

Coercion has no error: a value that denotes no number is read as NaN.  This module says which
values those are, by their shape and by the characters of a text, and without the reader.

## Main definitions

* `Value.unwrapped` — a value without the arrays of one item around it
* `Value.Unreadable` — the shapes that denote no number

## Main statements

* `isNaN_coerceText_iff` — the texts that are read as NaN
* `Value.isNaN_coerce_iff` — the values that are read as NaN

## Two ways to a NaN

A NaN stands for "not readable" only if no readable value is read as one.  That half is about
doubles: a marked number is a long fold of rounded steps, and both it and a decimal can leave the
range, but neither ever gives a NaN (`Numeral.isNaN_toFloat`).  The other half is about
characters: every text outside the grammar is refused (`Numeral.isSome_parse?_iff`).
-/

namespace YarnPreview

theorem isNaN_notANumber : notANumber.isNaN = true := by decide

theorem not_isNaN_zero : ¬ (0.0 : Float).isNaN = true := by decide

/-- **The texts that are read as NaN**: without their padding they are neither empty nor a
numeral. -/
theorem isNaN_coerceText_iff (text : List Char) :
    (coerceText text).isNaN = true ↔
      ∃ trimmed, Text.Trims text trimmed ∧ trimmed ≠ [] ∧ ¬ Numeral.Spelled trimmed := by
  simp only [Text.trims_iff, exists_eq_left]
  unfold coerceText
  split
  · next hnil =>
      rw [hnil]
      exact iff_of_false not_isNaN_zero fun h => h.1 rfl
  · next hne =>
      rw [← Numeral.isSome_parse?_iff]
      cases hparse : Numeral.parse? (Text.trim text) with
      | none =>
          exact iff_of_true isNaN_notANumber ⟨hne, Bool.false_ne_true⟩
      | some numeral =>
          refine iff_of_false ?_ fun h => h.2 rfl
          rw [Option.elim_some, Numeral.isNaN_toFloat (Numeral.ne_undefined_of_parse? hparse)]
          exact Bool.false_ne_true

/-- **A number of a record is never NaN**, however large. -/
theorem Number.isNaN_toFloat (n : Number) : n.toFloat.isNaN = false := by
  cases n with
  | integer n => exact isNaN_ofInt n
  | double x hfinite =>
      show x.toModel.unpack.isNaN = false
      have hunpack : x.toModel.unpack.isFinite = true := hfinite
      cases hx : x.toModel.unpack with
      | notANumber =>
          rw [hx] at hunpack
          cases hunpack
      | _ => rfl

namespace Value

/-- **A value without the arrays of one item around it**, however many there are. -/
def unwrapped : Value → Value
  | array [item] => item.unwrapped
  | value => value

/-- Nothing is left to unwrap. -/
theorem unwrapped_ne_singleton (value item : Value) : value.unwrapped ≠ array [item] := by
  fun_induction unwrapped value with
  | case1 inner ih => exact ih
  | case2 value h => exact h item

/-- Unwrapping does not change the double of a value. -/
theorem coerce_unwrapped (value : Value) : value.unwrapped.coerce = value.coerce := by
  fun_induction unwrapped value with
  | case1 inner ih => rw [ih, coerce_array_singleton]
  | case2 value h => rfl

/-- **What denotes no number**: an object, an array of two items or more, and a text that
without its padding is neither empty nor a numeral. -/
inductive Unreadable : Value → Prop
  | object (fields : Fields Value) : Unreadable (object fields)
  | array (first second : Value) (rest : List Value) :
      Unreadable (array (first :: second :: rest))
  | string {s : String} {trimmed : List Char} (htrims : Text.Trims s.toList trimmed)
      (hne : trimmed ≠ []) (hnumeral : ¬ Numeral.Spelled trimmed) : Unreadable (string s)

/-- **Coercion gives NaN for what denotes no number, and for nothing else.** -/
theorem isNaN_coerce_iff (value : Value) :
    value.coerce.isNaN = true ↔ value.unwrapped.Unreadable := by
  rw [← coerce_unwrapped]
  have hne := value.unwrapped_ne_singleton
  generalize value.unwrapped = inner at hne
  cases inner with
  | null => exact iff_of_false not_isNaN_zero nofun
  | bool b =>
      refine iff_of_false ?_ nofun
      cases b <;> decide
  | number n =>
      refine iff_of_false ?_ nofun
      rw [coerce_number, n.isNaN_toFloat]
      exact Bool.false_ne_true
  | string s =>
      rw [coerce_string, isNaN_coerceText_iff]
      constructor
      · rintro ⟨trimmed, htrims, hnil, hnumeral⟩
        exact .string htrims hnil hnumeral
      · intro h
        cases h with
        | @string _ trimmed htrims hnil hnumeral => exact ⟨trimmed, htrims, hnil, hnumeral⟩
  | array items =>
      match items, hne with
      | [], _ => exact iff_of_false not_isNaN_zero nofun
      | [item], hne => exact absurd rfl (hne item)
      | first :: second :: rest, _ =>
          exact iff_of_true isNaN_notANumber (.array first second rest)
  | object fields => exact iff_of_true isNaN_notANumber (.object fields)

end Value

end YarnPreview
