import Mathlib
import YarnPreview.Proofs.Value.Readable

/-!
# Padding, here and on the host

The reader of numeric text and the host it feeds agree on what a numeral is, but not quite on
what may stand around one.  The reader takes off the blanks of the Unicode property White_Space.
The host takes off a list of its own: the tab and line controls, the two separators, every
Space_Separator and the byte-order mark.  This module says on which texts the difference shows.

## Main definitions

* `Text.isHostBlank`, `Text.hostTrim` — the padding of the host
* `Numeral.Denotes` — the texts that denote a number
* `Value.ReadsAsHost` — a text is read as if the host had taken its padding off
* `Value.MisreadPadding` — padding on which the two disagree

## Main statements

* `Text.isHostBlank_iff` — two characters tell the two kinds of blank apart
* `isNaN_coerceText_of_foreign` — no number is spelled beyond ASCII
* `Value.readsAsHost_iff` — the texts that are read as the host reads them

## The two characters

**The byte-order mark** is padding on the host alone, so a marked number is read as none.
**The next-line control** is padding here alone, so a number next to it is read where the host
sees none.
-/

namespace YarnPreview

/-! ### Two kinds of blank -/

namespace Text

/-- The byte-order mark. -/
def byteOrderMark : Char := '\uFEFF'

/-- The next-line control. -/
def nextLine : Char := '\u0085'

/-- **The padding of the host**: inclusive ranges of code points, ascending and disjoint. -/
def hostBlankRanges : List (Nat × Nat) :=
  [(0x0009, 0x000D), (0x0020, 0x0020), (0x00A0, 0x00A0), (0x1680, 0x1680), (0x2000, 0x200A),
   (0x2028, 0x2029), (0x202F, 0x202F), (0x205F, 0x205F), (0x3000, 0x3000), (0xFEFF, 0xFEFF)]

/-- A character that the host takes for padding. -/
def isHostBlank (c : Char) : Bool :=
  hostBlankRanges.any fun range => range.1 ≤ c.toNat && c.toNat ≤ range.2

/-- **A text as the host trims it.** -/
def hostTrim (text : List Char) : List Char :=
  stripped isHostBlank text

/-- **Two characters tell the two kinds of blank apart.** -/
theorem isHostBlank_iff (c : Char) :
    isHostBlank c = true ↔ (isBlank c = true ∧ c ≠ nextLine) ∨ c = byteOrderMark := by
  have hnext : c = nextLine ↔ c.toNat = 0x85 := Char.toNat_inj.symm
  have hmark : c = byteOrderMark ↔ c.toNat = 0xFEFF := Char.toNat_inj.symm
  simp only [isHostBlank, hostBlankRanges, isBlank, blankRanges, List.any_cons, List.any_nil,
    Bool.or_eq_true, Bool.and_eq_true, decide_eq_true_eq, Bool.or_false, ne_eq, hnext, hmark]
  omega

/-- The byte-order mark is no blank. -/
theorem isBlank_byteOrderMark : isBlank byteOrderMark = false := by decide

/-- **Without a byte-order mark** the two ways to trim leave the same in the end: the host
takes off blanks and no other characters. -/
theorem trim_hostTrim {text : List Char} (h : byteOrderMark ∉ text) :
    trim (hostTrim text) = trim text := by
  have hparts := takeWhile_append_stripped isHostBlank text
  have hblank : ∀ c ∈ text, isHostBlank c = true → isBlank c = true := by
    intro c hc htest
    rcases (isHostBlank_iff c).mp htest with hblank | rfl
    · exact hblank.1
    · exact absurd hc h
  have hbefore : Padding (text.takeWhile isHostBlank) := fun c hc =>
    hblank c (List.takeWhile_subset _ hc) (List.mem_takeWhile_imp hc)
  have hafter : Padding ((text.dropWhile isHostBlank).rtakeWhile isHostBlank) := fun c hc =>
    hblank c ((List.dropWhile_subset _) ((List.rtakeWhile_suffix _ _).subset hc))
      (List.mem_rtakeWhile_imp hc)
  nth_rewrite 2 [← hparts]
  exact (trim_padded hbefore hafter _).symm

end Text

/-! ### Texts that denote a number -/

namespace Numeral

/-- **The texts that denote a number**: without their padding they are empty or a numeral. -/
def Denotes (text : List Char) : Prop :=
  ∃ trimmed, Text.Trims text trimmed ∧ (trimmed = [] ∨ Spelled trimmed)

theorem denotes_iff (text : List Char) :
    Denotes text ↔ Text.trim text = [] ∨ Spelled (Text.trim text) := by
  simp only [Denotes, Text.trims_iff, exists_eq_left]

end Numeral

/-- What denotes no number is read as NaN, and nothing else. -/
theorem isNaN_coerceText_iff_not_denotes (text : List Char) :
    (coerceText text).isNaN = true ↔ ¬ Numeral.Denotes text := by
  rw [isNaN_coerceText_iff, Numeral.denotes_iff]
  simp only [Text.trims_iff, exists_eq_left, not_or, ne_eq]

/-- **No number is spelled beyond ASCII**: such a character is a blank, or the text is read as
NaN. -/
theorem isNaN_coerceText_of_foreign {text : List Char} {c : Char} (hmem : c ∈ text)
    (hforeign : 128 ≤ c.toNat) (hblank : Text.isBlank c = false) :
    (coerceText text).isNaN = true := by
  rw [isNaN_coerceText_iff_not_denotes]
  rintro ⟨trimmed, ⟨⟨before, after, hbefore, hafter, rfl⟩, -, -⟩, hnumeral⟩
  -- no padding, so it stands in what is left
  have hleft : c ∈ trimmed := by
    rcases List.mem_append.mp hmem with hc | hc
    · rw [hbefore c hc] at hblank
      cases hblank
    rcases List.mem_append.mp hc with hc | hc
    · exact hc
    · rw [hafter c hc] at hblank
      cases hblank
  rcases hnumeral with rfl | hspelled
  · cases hleft
  · have := hspelled.ascii c hleft
    omega

/-- There is one NaN. -/
theorem eq_notANumber_of_isNaN {x : Float} (h : x.isNaN = true) : x = notANumber := by
  have hfinite : x.isFinite = false := by
    show x.toModel.unpack.isFinite = false
    have hnan : x.toModel.unpack.isNaN = true := h
    cases hx : x.toModel.unpack with
    | notANumber => rfl
    | _ =>
        rw [hx] at hnan
        cases hnan
  rcases eq_of_not_isFinite hfinite with rfl | rfl | rfl
  · rfl
  · exact absurd h (by decide)
  · exact absurd h (by decide)

namespace Value

/-- **A text is read as the host reads it**, as far as padding goes. -/
structure ReadsAsHost (s : String) : Prop where
  /-- It is read as what is left of it when the host has trimmed it. -/
  same : coerce (.string s) = coerce (.string (String.ofList (Text.hostTrim s.toList)))
  /-- No number has anything beyond ASCII at either end of that. -/
  foreign : ∀ c : Char, c ∈ (Text.hostTrim s.toList).head? ∨ c ∈ (Text.hostTrim s.toList).getLast? →
    128 ≤ c.toNat → (coerce (.string s)).isNaN = true

/-- **Padding on which the two disagree.** -/
inductive MisreadPadding (s : String) : Prop
  /-- A byte-order mark in a text that is read as a number once the host has trimmed it; what
  the host leaves may still be padded with blanks of its own, as in "\uFEFF\u00855". -/
  | mark (hmark : Text.byteOrderMark ∈ s.toList)
      (hhost : Numeral.Denotes (Text.hostTrim s.toList))
  /-- A next-line control next to what denotes a number here. -/
  | control (hcontrol : Text.nextLine ∈ (Text.hostTrim s.toList).head? ∨
      Text.nextLine ∈ (Text.hostTrim s.toList).getLast?)
      (hhere : Numeral.Denotes s.toList)

variable {s : String}

/-- With a byte-order mark in it a text is read as NaN, wherever the mark stands. -/
theorem isNaN_coerce_of_byteOrderMark (h : Text.byteOrderMark ∈ s.toList) :
    (coerce (.string s)).isNaN = true :=
  isNaN_coerceText_of_foreign h (by decide) Text.isBlank_byteOrderMark

/-- An end of what the host leaves is a character of the text that the host does not take for
padding. -/
theorem mem_of_edge {c : Char}
    (h : c ∈ (Text.hostTrim s.toList).head? ∨ c ∈ (Text.hostTrim s.toList).getLast?) :
    c ∈ s.toList ∧ Text.isHostBlank c = false := by
  have hparts := Text.takeWhile_append_stripped Text.isHostBlank s.toList
  have hmem : c ∈ Text.hostTrim s.toList := h.elim List.mem_of_mem_head? List.mem_of_getLast?
  refine ⟨?_, h.elim Text.of_mem_head?_stripped Text.of_mem_getLast?_stripped⟩
  rw [← hparts]
  exact List.mem_append_right _ (List.mem_append_left _ hmem)

/-- **A text is read as the host reads it**, unless its padding is misread. -/
theorem readsAsHost_iff (s : String) : ReadsAsHost s ↔ ¬ MisreadPadding s := by
  constructor
  · rintro ⟨hsame, hforeign⟩ (⟨hmark, hhost⟩ | ⟨hcontrol, hhere⟩)
    · -- the mark makes this no number, and so the host's text as well
      have hnan := isNaN_coerce_of_byteOrderMark hmark
      rw [hsame, coerce_string, String.toList_ofList, isNaN_coerceText_iff_not_denotes] at hnan
      exact hnan hhost
    · have hnan := hforeign _ hcontrol (by decide)
      rw [coerce_string, isNaN_coerceText_iff_not_denotes] at hnan
      exact hnan hhere
  · intro hread
    by_cases hmark : Text.byteOrderMark ∈ s.toList
    · have hnan := isNaN_coerce_of_byteOrderMark hmark
      refine ⟨?_, fun _ _ _ => hnan⟩
      have hhost : (coerce (.string (String.ofList (Text.hostTrim s.toList)))).isNaN = true := by
        rw [coerce_string, String.toList_ofList, isNaN_coerceText_iff_not_denotes]
        exact fun hhost => hread (.mark hmark hhost)
      rw [eq_notANumber_of_isNaN hnan, eq_notANumber_of_isNaN hhost]
    · constructor
      · rw [coerce_string, coerce_string, String.toList_ofList, coerceText, coerceText,
          Text.trim_hostTrim hmark]
      · intro c hedge hc
        obtain ⟨hmem, hother⟩ := mem_of_edge hedge
        by_cases hblank : Text.isBlank c = true
        · -- a blank that the host leaves is the next-line control
          have hcontrol : c = Text.nextLine := by
            by_contra hne
            rw [(Text.isHostBlank_iff c).mpr (.inl ⟨hblank, hne⟩)] at hother
            cases hother
          subst hcontrol
          rw [coerce_string, isNaN_coerceText_iff_not_denotes]
          exact fun hhere => hread (.control hedge hhere)
        · exact isNaN_coerceText_of_foreign hmem hc (Bool.not_eq_true _ ▸ hblank)

/-- **Both characters are misread**: a five behind a byte-order mark is read as NaN, and a five
behind a next-line control is read as a five. -/
theorem not_readsAsHost_marked :
    ((coerce (.string "\uFEFF5")).isNaN = true ∧ ¬ ReadsAsHost "\uFEFF5") ∧
      (coerce (.string "\u00855") = 5.0 ∧ ¬ ReadsAsHost "\u00855") := by
  have hmark : (coerce (.string "\uFEFF5")).isNaN = true := by decide +kernel
  have hcontrol : coerce (.string "\u00855") = 5.0 := by decide +kernel
  refine ⟨⟨hmark, fun h => ?_⟩, ⟨hcontrol, fun h => ?_⟩⟩
  · rw [h.same] at hmark
    exact absurd hmark (by decide +kernel)
  · have hnan := h.foreign Text.nextLine (by decide +kernel) (by decide)
    rw [hcontrol] at hnan
    exact absurd hnan (by decide +kernel)

end Value

end YarnPreview
