import Mathlib.Data.List.DropRight
import YarnPreview.Text.Blank

/-!
# What trimming leaves

`trim` is computed from the front and from the back.  What it leaves can be said without either:
a text is padding, then what is left, then padding again, and what is left neither starts nor
ends with a blank.

## Main definitions

* `Padding` — blanks and nothing else
* `Trims` — the relation between a text and the text without its padding
* `stripped` — a text without the characters at its two ends that pass a test

## Main statements

* `takeWhile_append_boundary` — a run of characters and what follows it
* `trims_iff` — trimming gives the one text that stands in this relation
* `trim_padded` — more padding makes no difference
-/

namespace YarnPreview.Text

/-- **A run and what follows it** are told apart by a test that holds along the run and fails
right after it. -/
theorem takeWhile_append_boundary {test : Char → Bool} {run rest : List Char}
    (hrun : ∀ c ∈ run, test c = true) (hrest : ∀ c ∈ rest.head?, test c = false) :
    (run ++ rest).takeWhile test = run ∧ (run ++ rest).dropWhile test = rest := by
  rw [List.takeWhile_append_of_pos hrun, List.dropWhile_append_of_pos hrun]
  cases rest with
  | nil => simp
  | cons c rest =>
      have hc : ¬ test c = true := by
        rw [hrest c rfl]
        exact Bool.false_ne_true
      rw [List.takeWhile_cons_of_neg hc, List.dropWhile_cons_of_neg hc, List.append_nil]
      exact ⟨rfl, rfl⟩

/-- Blanks and nothing else, possibly none. -/
def Padding (text : List Char) : Prop :=
  ∀ c ∈ text, isBlank c = true

/-- **A text and what is left of it without its padding.** -/
structure Trims (text trimmed : List Char) : Prop where
  /-- Padding stands on both sides of what is left. -/
  padded : ∃ before after, Padding before ∧ Padding after ∧ text = before ++ (trimmed ++ after)
  /-- No blank is left at the front. -/
  head : ∀ c ∈ trimmed.head?, isBlank c = false
  /-- No blank is left at the back. -/
  last : ∀ c ∈ trimmed.getLast?, isBlank c = false

/-- Padding at the front is dropped, up to the first character that is not blank. -/
theorem trimStart_append {before rest : List Char} (hbefore : Padding before)
    (hrest : ∀ c ∈ rest.head?, isBlank c = false) : trimStart (before ++ rest) = rest :=
  (takeWhile_append_boundary hbefore hrest).2

/-- Padding at the back is dropped, down to the last character that is not blank. -/
theorem trimEnd_append {rest after : List Char} (hafter : Padding after)
    (hrest : ∀ c ∈ rest.getLast?, isBlank c = false) : trimEnd (rest ++ after) = rest := by
  -- seen from the back this is the same fact about the reversed texts
  have hback : trimStart (after.reverse ++ rest.reverse) = rest.reverse := by
    refine trimStart_append (fun c hc => hafter c (List.mem_reverse.mp hc)) ?_
    rwa [List.head?_reverse]
  rw [trimEnd, List.reverse_append, ← trimStart, hback, List.reverse_reverse]

/-! ### Either end -/

/-- **A text without the characters at its two ends that pass a test.** -/
def stripped (test : Char → Bool) (text : List Char) : List Char :=
  (text.dropWhile test).rdropWhile test

/-- Trimming takes the blanks. -/
theorem trim_eq_stripped (text : List Char) : trim text = stripped isBlank text := rfl

section Stripped

variable (test : Char → Bool) (text : List Char)

/-- A text is what was taken off its front, what is left and what was taken off its back. -/
theorem takeWhile_append_stripped :
    text.takeWhile test ++ (stripped test text ++ (text.dropWhile test).rtakeWhile test) =
      text := by
  rw [stripped, List.rdropWhile_append_rtakeWhile, List.takeWhile_append_dropWhile]

variable {test text} {c : Char}

/-- What dropping from the front leaves starts where the test fails. -/
theorem of_mem_head?_dropWhile (h : c ∈ (text.dropWhile test).head?) : test c = false := by
  have hnot := List.head?_dropWhile_not test text
  rwa [show (text.dropWhile test).head? = some c from h] at hnot

/-- What is left starts where the test fails … -/
theorem of_mem_head?_stripped (h : c ∈ (stripped test text).head?) : test c = false := by
  -- it is a first part of the text that dropping from the front leaves
  have hparts : stripped test text ++ (text.dropWhile test).rtakeWhile test =
      text.dropWhile test := List.rdropWhile_append_rtakeWhile
  have hstart : c ∈ (text.dropWhile test).head? :=
    hparts ▸ List.mem_head?_append_of_mem_head? h
  exact of_mem_head?_dropWhile hstart

/-- … and ends where it fails. -/
theorem of_mem_getLast?_stripped (h : c ∈ (stripped test text).getLast?) : test c = false := by
  rw [stripped, List.rdropWhile, List.getLast?_reverse] at h
  exact of_mem_head?_dropWhile h

end Stripped

/-- **Trimming leaves a text without padding.** -/
theorem trims_trim (text : List Char) : Trims text (trim text) := by
  rw [trim_eq_stripped]
  refine ⟨⟨text.takeWhile isBlank, (text.dropWhile isBlank).rtakeWhile isBlank, ?_, ?_, ?_⟩,
    fun _ => of_mem_head?_stripped, fun _ => of_mem_getLast?_stripped⟩
  · exact fun _ hc => List.mem_takeWhile_imp hc
  · exact fun _ hc => List.mem_rtakeWhile_imp hc
  · exact (takeWhile_append_stripped isBlank text).symm

/-- **Trimming gives the one text** that is left of a text without its padding. -/
theorem trims_iff (text trimmed : List Char) : Trims text trimmed ↔ trimmed = trim text := by
  constructor
  · rintro ⟨⟨before, after, hbefore, hafter, rfl⟩, hhead, hlast⟩
    cases trimmed with
    | nil =>
        -- all of it is padding, and the front takes it whole
        have hstart : trimStart (before ++ ([] ++ after)) = [] := by
          refine List.dropWhile_eq_nil_iff.mpr fun c hc => ?_
          rw [List.nil_append, List.mem_append] at hc
          exact hc.elim (hbefore c) (hafter c)
        rw [trim, hstart, trimEnd_nil]
    | cons c rest =>
        have hstart : trimStart (before ++ (c :: rest ++ after)) = c :: rest ++ after :=
          trimStart_append hbefore hhead
        rw [trim, hstart, trimEnd_append hafter hlast]
  · rintro rfl
    exact trims_trim text

/-- **More padding makes no difference.** -/
theorem trim_padded {before after : List Char} (hbefore : Padding before)
    (hafter : Padding after) (text : List Char) :
    trim (before ++ (text ++ after)) = trim text := by
  obtain ⟨⟨inner, outer, hinner, houter, htext⟩, hhead, hlast⟩ := trims_trim text
  have htrims : Trims (before ++ (text ++ after)) (trim text) := by
    refine ⟨⟨before ++ inner, outer ++ after, ?_, ?_, ?_⟩, hhead, hlast⟩
    · exact List.forall_mem_append.mpr ⟨hbefore, hinner⟩
    · exact List.forall_mem_append.mpr ⟨houter, hafter⟩
    · nth_rewrite 1 [htext]
      simp only [List.append_assoc]
  exact ((trims_iff _ _).mp htrims).symm

end YarnPreview.Text
