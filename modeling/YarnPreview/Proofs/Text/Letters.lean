import Mathlib
import YarnPreview.Text.Letters

/-!
# Letters in either case

What the two case-blind rules of `YarnPreview.Text.Letters` mean: lowering a name
a second time changes nothing, and a text mentions a word exactly when the letters
of the word stand in it side by side, each of them small or capital.

## Main statements

* `lowercase_lowercase` — lowering is idempotent
* `mentions_iff` — mentioning a word, by the letters that spell it
-/

namespace YarnPreview.Text

/-- A lowered name is already in small letters. -/
@[simp] theorem lowercase_lowercase (name : String) :
    lowercase (lowercase name) = lowercase name := by
  simp [lowercase, Function.comp_def]

/-- **The letters that lower to a small one** are that letter and its capital. -/
theorem toLower_eq_iff {c small : Char} (h : small.isLower = true) :
    c.toLower = small ↔ c = small ∨ c = small.toUpper := by
  have hsmall : small.toLower = small :=
    Char.toLower_eq_of_not_isUpper (Char.not_isUpper_of_isLower h)
  constructor
  · rintro rfl
    by_cases hupper : c.isUpper = true
    · right
      rw [Char.toUpper_toLower_eq_toUpper,
        Char.toUpper_eq_of_not_isLower (Char.not_isLower_of_isUpper hupper)]
    · exact Or.inl (Char.toLower_eq_of_not_isUpper hupper).symm
  · rintro (rfl | rfl)
    · exact hsmall
    · rw [Char.toLower_toUpper_eq_toLower, hsmall]

/-- Mentioning a word is containing it, all letters lowered. -/
theorem mentions_iff_contains (word text : List Char) :
    mentions word text = true ↔ word <:+: text.map Char.toLower := by
  induction text with
  | nil => simp
  | cons c rest ih =>
      rw [mentions_cons, Bool.or_eq_true, List.isPrefixOf_iff_prefix, ih, List.map_cons,
        List.infix_cons_iff]

/-- **A text mentions a word** when some run of its letters lowers to the word. -/
theorem mentions_iff (word text : List Char) :
    mentions word text = true ↔
      ∃ before letters after, text = before ++ letters ++ after ∧
        letters.map Char.toLower = word := by
  rw [mentions_iff_contains]
  constructor
  · rintro ⟨before, after, h⟩
    obtain ⟨front, back, rfl, hfront, rfl⟩ := List.map_eq_append_iff.mp h.symm
    obtain ⟨start, letters, rfl, rfl, rfl⟩ := List.map_eq_append_iff.mp hfront
    exact ⟨start, letters, back, rfl, rfl⟩
  · rintro ⟨before, letters, after, rfl, rfl⟩
    exact ⟨before.map Char.toLower, after.map Char.toLower, by simp⟩

end YarnPreview.Text
