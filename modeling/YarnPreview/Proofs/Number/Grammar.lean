import Mathlib
import YarnPreview.Number.Numeral
import YarnPreview.Proofs.Text.Letters
import YarnPreview.Proofs.Text.Trimming

/-!
# The texts of numerals

Which texts denote a number is a matter of characters alone.  This module states the grammar
of numerals as it would be written down, by alphabets and by what stands next to what, and
shows that the reader accepts exactly these texts.

## Main definitions

* `DigitRun` — one or more characters of an alphabet
* `Ascii` — a text of ASCII characters
* `Decimal.Coefficient`, `Decimal.Power`, `Decimal.Spelled` — the parts of a decimal, and a
  decimal
* `Numeral.direct?` — the reader of numerals, without its screen
* `Numeral.Spelled` — a spelled-out infinity, a marked whole number or a decimal

## Main statements

* `Radix.isSome_digits?_iff` — the reader of digits in a marked base
* `Decimal.isSome_parse?_iff` — the reader of decimals
* `Numeral.screened_double?`, `Numeral.parse?_eq_direct?` — behind the screen, the general
  reader reads decimals
* `Numeral.isSome_parse?_iff` — the reader of numerals
* `Numeral.Spelled.ascii` — a numeral is spelled in ASCII

## Design notes

**The reader commits, the grammar does not.**  A sign, a run of digits, a point and a mark are
taken greedily and never given back, and a text that announces a base is not tried as a decimal.
This loses nothing because the parts cannot be mistaken for one another: no digit is a sign, a
point or a mark, and no decimal has a letter after a leading zero but the mark of its power.

**The screen is exact.**  It turns away no decimal, for a decimal has no letter but the mark of
its power, and all the special names, for each of them has an `n`.
-/

namespace YarnPreview

/-! ### Alphabets -/

/-- The ten decimal digits. -/
def decimalDigits : List Char := "0123456789".toList

namespace Radix

/-- The letters that announce a base. -/
def marks : Radix → List Char
  | binary => ['b', 'B']
  | octal => ['o', 'O']
  | hexadecimal => ['x', 'X']

/-- The digits of a base, small and capital letters alike. -/
def alphabet : Radix → List Char
  | binary => "01".toList
  | octal => "01234567".toList
  | hexadecimal => "0123456789abcdefABCDEF".toList

end Radix

/-- **One or more characters of an alphabet**, and nothing else. -/
structure DigitRun (alphabet text : List Char) : Prop where
  ne_nil : text ≠ []
  mem : ∀ c ∈ text, c ∈ alphabet

/-- A text of ASCII characters. -/
def Ascii (text : List Char) : Prop :=
  ∀ c ∈ text, c.toNat < 128

theorem ascii_of_all {text : List Char} (h : text.all (fun c => c.toNat < 128) = true) :
    Ascii text := by
  intro c hc
  simpa using List.all_eq_true.mp h c hc

theorem ascii_cons {c : Char} {text : List Char} (hc : c.toNat < 128) (htext : Ascii text) :
    Ascii (c :: text) :=
  List.forall_mem_cons.mpr ⟨hc, htext⟩

theorem Radix.ascii_alphabet (radix : Radix) : Ascii radix.alphabet :=
  ascii_of_all (by cases radix <;> decide +kernel)

theorem Radix.ascii_marks (radix : Radix) : Ascii radix.marks :=
  ascii_of_all (by cases radix <;> decide +kernel)

theorem ascii_decimalDigits : Ascii decimalDigits :=
  ascii_of_all (by decide +kernel)

theorem DigitRun.ascii {alphabet text : List Char} (h : DigitRun alphabet text)
    (halphabet : Ascii alphabet) : Ascii text :=
  fun c hc => halphabet c (h.mem c hc)

/-- What holds of the ASCII characters and of all others holds of all characters. -/
theorem forall_char_of_ascii {property : Char → Prop}
    (hascii : ∀ n : Fin 128, property (Char.ofNat n))
    (hother : ∀ c : Char, 128 ≤ c.toNat → property c) (c : Char) : property c := by
  by_cases hlt : c.toNat < 128
  · rw [← Char.ofNat_toNat c]
    exact hascii ⟨c.toNat, hlt⟩
  · exact hother c (by omega)

/-- Beyond ASCII there are no decimal digits. -/
theorem isDigit_of_not_ascii {c : Char} (h : 128 ≤ c.toNat) : c.isDigit = false := by
  have hval : 128 ≤ c.val.toNat := h
  simp only [Char.isDigit, ge_iff_le, UInt32.le_iff_toNat_le, Bool.and_eq_false_iff,
    decide_eq_false_iff_not]
  right
  show ¬ c.val.toNat ≤ 57
  omega

/-- Beyond ASCII there are no digits at all. -/
theorem digitValue?_of_not_ascii {c : Char} (h : 128 ≤ c.toNat) : digitValue? c = none := by
  have habove : ∀ letter : Char, letter.toNat < 128 → ¬ c ≤ letter := by
    intro letter hletter hle
    have hval : c.toNat ≤ letter.toNat := UInt32.le_iff_toNat_le.mp (Char.le_def.mp hle)
    omega
  have hsmall : ¬ c ≤ 'f' := habove 'f' (by decide)
  have hcapital : ¬ c ≤ 'F' := habove 'F' (by decide)
  simp [digitValue?, isDigit_of_not_ascii h, hsmall, hcapital]

/-- **The digits of a base** are those of its alphabet. -/
theorem Radix.isSome_digit?_iff (radix : Radix) (c : Char) :
    (radix.digit? c).isSome = true ↔ c ∈ radix.alphabet := by
  revert c
  refine forall_char_of_ascii ?_ ?_
  · cases radix <;> decide +kernel
  · intro c hc
    rw [digit?, digitValue?_of_not_ascii hc]
    refine iff_of_false Bool.false_ne_true fun h => ?_
    have hlt := radix.ascii_alphabet c h
    omega

/-- The decimal digits are those of core. -/
theorem isDigit_iff_mem (c : Char) : c.isDigit = true ↔ c ∈ decimalDigits := by
  revert c
  refine forall_char_of_ascii (by decide +kernel) ?_
  intro c hc
  rw [isDigit_of_not_ascii hc]
  refine iff_of_false Bool.false_ne_true fun h => ?_
  have hlt := ascii_decimalDigits c h
  omega

/-! ### Marked whole numbers -/

namespace Radix

/-- The letters that announce a base are its marks. -/
theorem ofMark?_eq_some_iff (letter : Char) (radix : Radix) :
    ofMark? letter = some radix ↔ letter ∈ radix.marks := by
  unfold ofMark?
  split
  all_goals cases radix <;> simp_all [marks]

/-- **The reader of digits** accepts the runs of digits of its base. -/
theorem isSome_digits?_iff (radix : Radix) (text : List Char) :
    (radix.digits? text).isSome = true ↔ DigitRun radix.alphabet text := by
  have hall : ∀ text : List Char, (text.mapM radix.digit?).isSome = true ↔
      ∀ c ∈ text, c ∈ radix.alphabet := by
    intro text
    induction text with
    | nil => simp
    | cons c rest ih =>
        rw [List.forall_mem_cons, ← ih, ← isSome_digit?_iff, List.mapM_cons]
        cases radix.digit? c <;> cases rest.mapM radix.digit? <;> simp
  cases text with
  | nil =>
      constructor
      · intro h
        cases h
      · intro h
        exact absurd rfl h.ne_nil
  | cons c rest =>
      rw [digits?, hall]
      · exact ⟨fun h => ⟨List.cons_ne_nil c rest, h⟩, fun h => h.mem⟩
      · exact List.cons_ne_nil c rest

end Radix

/-! ### Decimals -/

/-- **An optional sign.** -/
inductive OptionalSign : List Char → Prop
  | none : OptionalSign []
  | plus : OptionalSign ['+']
  | minus : OptionalSign ['-']

namespace Decimal

/-- **The coefficient of a decimal**: digits, digits with a point and possibly more digits
after it, or a point with digits after it. -/
inductive Coefficient : List Char → Prop
  | whole {whole : List Char} (h : DigitRun decimalDigits whole) : Coefficient whole
  | pointed {whole fraction : List Char} (h : DigitRun decimalDigits whole)
      (hfraction : ∀ c ∈ fraction, c ∈ decimalDigits) : Coefficient (whole ++ '.' :: fraction)
  | fraction {fraction : List Char} (h : DigitRun decimalDigits fraction) :
      Coefficient ('.' :: fraction)

/-- **The power of a decimal**: nothing, or a mark, an optional sign and digits. -/
inductive Power : List Char → Prop
  | none : Power []
  | some {mark : Char} {sign digits : List Char} (hmark : mark = 'e' ∨ mark = 'E')
      (hsign : OptionalSign sign) (h : DigitRun decimalDigits digits) :
      Power (mark :: (sign ++ digits))

/-- **The text of a decimal**: an optional sign, a coefficient and a power. -/
inductive Spelled : List Char → Prop
  | mk {sign coefficient power : List Char} (hsign : OptionalSign sign)
      (hcoefficient : Coefficient coefficient) (hpower : Power power) :
      Spelled (sign ++ (coefficient ++ power))

end Decimal

/-- What follows the sign that is split off, and the sign. -/
theorem exists_sign_splitSign (text : List Char) :
    ∃ sign, OptionalSign sign ∧ text = sign ++ (splitSign text).2 := by
  unfold splitSign
  split
  · exact ⟨['-'], .minus, rfl⟩
  · exact ⟨['+'], .plus, rfl⟩
  · exact ⟨[], .none, rfl⟩

/-- A sign is split off as it was written, if no other sign follows. -/
theorem splitSign_append {sign rest : List Char} (hsign : OptionalSign sign)
    (h : ∀ c ∈ rest.head?, c ≠ '+' ∧ c ≠ '-') : (splitSign (sign ++ rest)).2 = rest := by
  cases hsign with
  | none =>
      rw [List.nil_append]
      unfold splitSign
      split
      · exact absurd rfl (h '-' rfl).2
      · exact absurd rfl (h '+' rfl).1
      · rfl
  | plus => rfl
  | minus => rfl

/-- Digits are taken off the front of a text as they were written, if no digit follows. -/
theorem takeWhile_append_digits {digits rest : List Char} (hdigits : ∀ c ∈ digits, c ∈ decimalDigits)
    (hrest : ∀ c ∈ rest.head?, c ∉ decimalDigits) :
    (digits ++ rest).takeWhile Char.isDigit = digits ∧
      (digits ++ rest).dropWhile Char.isDigit = rest := by
  refine Text.takeWhile_append_boundary ?_ ?_
  · intro c hc
    exact (isDigit_iff_mem c).mpr (hdigits c hc)
  · intro c hc
    rw [← Bool.not_eq_true, isDigit_iff_mem]
    exact hrest c hc

/-- A run of decimal digits, by core's test. -/
theorem digitRun_iff (text : List Char) :
    DigitRun decimalDigits text ↔ text ≠ [] ∧ text.all Char.isDigit = true := by
  rw [List.all_eq_true]
  constructor
  · intro h
    exact ⟨h.ne_nil, fun c hc => (isDigit_iff_mem c).mpr (h.mem c hc)⟩
  · intro h
    exact ⟨h.1, fun c hc => (isDigit_iff_mem c).mp (h.2 c hc)⟩

/-- A run of digits starts with a digit. -/
theorem DigitRun.mem_of_mem_head?_append {alphabet text rest : List Char} {c : Char}
    (h : DigitRun alphabet text) (hc : c ∈ (text ++ rest).head?) : c ∈ alphabet := by
  rw [List.head?_append_of_ne_nil _ h.ne_nil] at hc
  exact h.mem c (List.mem_of_mem_head? hc)

/-- No digit is a sign. -/
theorem ne_sign_of_mem_decimalDigits {c : Char} (h : c ∈ decimalDigits) : c ≠ '+' ∧ c ≠ '-' := by
  constructor <;> rintro rfl <;> revert h <;> decide

/-- The digits that are taken off the front of a text are digits. -/
theorem mem_of_mem_takeWhile {text : List Char} {c : Char}
    (h : c ∈ text.takeWhile Char.isDigit) : c ∈ decimalDigits :=
  (isDigit_iff_mem c).mp (List.mem_takeWhile_imp h)

namespace Decimal

/-- A power starts with its mark, if there is one. -/
theorem Power.mark_of_mem_head? {power : List Char} (h : Power power) :
    ∀ c ∈ power.head?, c = 'e' ∨ c = 'E' := by
  intro c hc
  cases h with
  | none => cases hc
  | some hmark _ _ =>
      cases hc
      exact hmark

/-- **The reader of powers** accepts the powers. -/
theorem isSome_exponent?_iff (tail : List Char) :
    (exponent? tail).isSome = true ↔ Power tail := by
  have hcons : ∀ (mark : Char) (rest : List Char), (exponent? (mark :: rest)).isSome = true ↔
      (mark = 'e' ∨ mark = 'E') ∧ DigitRun decimalDigits (splitSign rest).2 := by
    intro mark rest
    rcases hsplit : splitSign rest with ⟨negative, digits⟩
    rw [digitRun_iff, ← and_assoc]
    simp [exponent?, hsplit]
  constructor
  · intro h
    cases tail with
    | nil => exact .none
    | cons mark rest =>
        obtain ⟨hmark, hdigits⟩ := (hcons mark rest).mp h
        obtain ⟨sign, hsign, hrest⟩ := exists_sign_splitSign rest
        rw [hrest]
        exact .some hmark hsign hdigits
  · intro h
    cases h with
    | none => rfl
    | @some mark sign digits hmark hsign hdigits =>
        have hhead : ∀ c ∈ digits.head?, c ≠ '+' ∧ c ≠ '-' := fun c hc =>
          ne_sign_of_mem_decimalDigits (hdigits.mem c (List.mem_of_mem_head? hc))
        rw [hcons, splitSign_append hsign hhead]
        exact ⟨hmark, hdigits⟩

/-- **A decimal without its sign, split.**  Digits on at least one side of the point are what
makes the text in front of the rest a coefficient. -/
theorem exists_coefficient_splitFraction (unsigned : List Char)
    (h : ¬ (unsigned.takeWhile Char.isDigit = [] ∧
      (splitFraction (unsigned.dropWhile Char.isDigit)).1 = [])) :
    ∃ coefficient, Coefficient coefficient ∧
      unsigned = coefficient ++ (splitFraction (unsigned.dropWhile Char.isDigit)).2 := by
  have hparts : unsigned.takeWhile Char.isDigit ++ unsigned.dropWhile Char.isDigit = unsigned :=
    List.takeWhile_append_dropWhile
  have hwhole : ∀ c ∈ unsigned.takeWhile Char.isDigit, c ∈ decimalDigits :=
    fun c hc => mem_of_mem_takeWhile hc
  revert h hparts hwhole
  generalize unsigned.takeWhile Char.isDigit = whole
  generalize unsigned.dropWhile Char.isDigit = rest
  intro h hparts hwhole
  subst hparts
  unfold splitFraction at h ⊢
  split at h
  · next after =>
      have hfraction : ∀ c ∈ after.takeWhile Char.isDigit, c ∈ decimalDigits :=
        fun c hc => mem_of_mem_takeWhile hc
      by_cases hnil : whole = []
      · -- nothing before the point: there are digits after it
        refine ⟨'.' :: after.takeWhile Char.isDigit, .fraction ⟨?_, hfraction⟩, ?_⟩
        · exact fun hempty => h ⟨hnil, hempty⟩
        · simp [hnil]
      · refine ⟨whole ++ '.' :: after.takeWhile Char.isDigit,
          .pointed ⟨hnil, hwhole⟩ hfraction, ?_⟩
        simp
  · refine ⟨whole, .whole ⟨?_, hwhole⟩, ?_⟩
    · exact fun hnil => h ⟨hnil, rfl⟩
    · rfl

/-- **A coefficient and a power are told apart**: what is taken off the front is the
coefficient, and what is left is the power. -/
theorem Coefficient.splitFraction_append {coefficient power : List Char}
    (h : Coefficient coefficient) (hpower : Power power) :
    ¬ ((coefficient ++ power).takeWhile Char.isDigit = [] ∧
        (splitFraction ((coefficient ++ power).dropWhile Char.isDigit)).1 = []) ∧
      (splitFraction ((coefficient ++ power).dropWhile Char.isDigit)).2 = power := by
  -- a power starts with a letter, so it goes on neither with a digit nor with a point
  have hdigit : ∀ c ∈ power.head?, c ∉ decimalDigits := by
    intro c hc
    rcases hpower.mark_of_mem_head? c hc with rfl | rfl <;> decide
  have hpoint : splitFraction power = ([], power) := by
    unfold splitFraction
    split
    · rcases hpower.mark_of_mem_head? '.' rfl with hmark | hmark <;> cases hmark
    · rfl
  have hdot : ∀ rest : List Char, ∀ c ∈ ('.' :: rest).head?, c ∉ decimalDigits := by
    intro rest c hc
    cases hc
    decide
  cases h with
  | whole hwhole =>
      obtain ⟨htake, hdrop⟩ := takeWhile_append_digits hwhole.mem hdigit
      rw [htake, hdrop, hpoint]
      exact ⟨fun hempty => hwhole.ne_nil hempty.1, rfl⟩
  | @pointed whole fraction hwhole hfraction =>
      rw [List.append_assoc, List.cons_append]
      obtain ⟨htake, hdrop⟩ := takeWhile_append_digits hwhole.mem (hdot (fraction ++ power))
      rw [htake, hdrop]
      exact ⟨fun hempty => hwhole.ne_nil hempty.1, (takeWhile_append_digits hfraction hdigit).2⟩
  | @fraction fraction hfraction =>
      obtain ⟨htake, hdrop⟩ := takeWhile_append_digits hfraction.mem hdigit
      refine ⟨fun hempty => hfraction.ne_nil ?_, hdrop⟩
      rw [← htake]
      exact hempty.2

/-- What the reader of decimals asks for: a digit on one side of the point, and a power. -/
theorem isSome_parse? (text : List Char) :
    (parse? text).isSome = true ↔
      ¬ ((splitSign text).2.takeWhile Char.isDigit = [] ∧
          (splitFraction ((splitSign text).2.dropWhile Char.isDigit)).1 = []) ∧
        Power (splitFraction ((splitSign text).2.dropWhile Char.isDigit)).2 := by
  rw [← isSome_exponent?_iff]
  rcases hsign : splitSign text with ⟨negative, unsigned⟩
  rcases hsplit : splitFraction (unsigned.dropWhile Char.isDigit) with ⟨fraction, tail⟩
  simp only [parse?, hsign, hsplit, Bool.and_eq_true, List.isEmpty_iff]
  split
  · next hempty => simp [hempty]
  · next hempty => rw [Option.isSome_map, and_iff_right hempty]

/-- **The reader of decimals** accepts the texts of decimals, and no others. -/
theorem isSome_parse?_iff (text : List Char) :
    (parse? text).isSome = true ↔ Spelled text := by
  constructor
  · intro h
    obtain ⟨hdigits, hpower⟩ := (isSome_parse? text).mp h
    obtain ⟨sign, hsign, htext⟩ := exists_sign_splitSign text
    obtain ⟨coefficient, hcoefficient, hunsigned⟩ := exists_coefficient_splitFraction _ hdigits
    rw [htext, hunsigned]
    exact .mk hsign hcoefficient hpower
  · intro h
    cases h with
    | @mk sign coefficient power hsign hcoefficient hpower =>
        have hhead : ∀ c ∈ (coefficient ++ power).head?, c ≠ '+' ∧ c ≠ '-' := by
          intro c hc
          cases hcoefficient with
          | whole hwhole =>
              exact ne_sign_of_mem_decimalDigits (hwhole.mem_of_mem_head?_append hc)
          | pointed hwhole _ =>
              rw [List.append_assoc] at hc
              exact ne_sign_of_mem_decimalDigits (hwhole.mem_of_mem_head?_append hc)
          | fraction _ =>
              cases hc
              decide
        obtain ⟨hdigits, htail⟩ := hcoefficient.splitFraction_append hpower
        rw [isSome_parse?, splitSign_append hsign hhead, htail]
        exact ⟨hdigits, hpower⟩

end Decimal

/-! ### The screen -/

/-- The characters of decimals. -/
def Decimal.alphabet : List Char := decimalDigits ++ ['+', '-', '.', 'e', 'E']

theorem Decimal.mem_alphabet_of_digits {text : List Char} (h : ∀ c ∈ text, c ∈ decimalDigits) :
    ∀ c ∈ text, c ∈ alphabet :=
  fun c hc => List.mem_append_left _ (h c hc)

theorem OptionalSign.mem_alphabet {sign : List Char} (h : OptionalSign sign) :
    ∀ c ∈ sign, c ∈ Decimal.alphabet := by
  cases h <;> simp [Decimal.alphabet]

namespace Decimal

theorem Coefficient.mem_alphabet {text : List Char} (h : Coefficient text) :
    ∀ c ∈ text, c ∈ alphabet := by
  have hpoint : '.' ∈ alphabet := by decide
  cases h with
  | whole h => exact mem_alphabet_of_digits h.mem
  | pointed h hfraction =>
      exact List.forall_mem_append.mpr ⟨mem_alphabet_of_digits h.mem,
        List.forall_mem_cons.mpr ⟨hpoint, mem_alphabet_of_digits hfraction⟩⟩
  | fraction h => exact List.forall_mem_cons.mpr ⟨hpoint, mem_alphabet_of_digits h.mem⟩

theorem Power.mem_alphabet {text : List Char} (h : Power text) : ∀ c ∈ text, c ∈ alphabet := by
  cases h with
  | none => exact fun c hc => absurd hc List.not_mem_nil
  | some hmark hsign h =>
      refine List.forall_mem_cons.mpr ⟨?_, List.forall_mem_append.mpr
        ⟨hsign.mem_alphabet, mem_alphabet_of_digits h.mem⟩⟩
      rcases hmark with rfl | rfl <;> decide

/-- **A decimal is spelled in digits, signs, a point and the mark of its power.** -/
theorem Spelled.mem_alphabet {text : List Char} (h : Spelled text) :
    ∀ c ∈ text, c ∈ alphabet := by
  obtain ⟨hsign, hcoefficient, hpower⟩ := h
  exact List.forall_mem_append.mpr ⟨hsign.mem_alphabet,
    List.forall_mem_append.mpr ⟨hcoefficient.mem_alphabet, hpower.mem_alphabet⟩⟩

end Decimal

namespace Numeral

/-- The screen turns away no decimal. -/
theorem not_stray_of_decimal {text : List Char} (h : Decimal.Spelled text) :
    text.any isStray = false := by
  have halphabet : Decimal.alphabet.any isStray = false := by decide +kernel
  rw [List.any_eq_false] at halphabet ⊢
  exact fun c hc => halphabet c (h.mem_alphabet c hc)

/-- A name with an `n` in it, in either case, has a stray letter. -/
theorem stray_of_lower_n {text : List Char} (h : 'n' ∈ text.map Char.toLower) :
    text.any isStray = true := by
  obtain ⟨c, hc, hlower⟩ := List.mem_map.mp h
  refine List.any_eq_true.mpr ⟨c, hc, ?_⟩
  rcases (Text.toLower_eq_iff (by decide)).mp hlower with rfl | rfl <;> decide

/-- **The screen turns away the special names.** -/
theorem special?_of_not_stray {text : List Char} (h : text.any isStray = false) :
    special? text = none := by
  obtain ⟨sign, -, htext⟩ := exists_sign_splitSign text
  have hnone : 'n' ∉ (splitSign text).2.map Char.toLower := by
    intro hn
    have hstray := stray_of_lower_n hn
    rw [htext, List.any_append, hstray, Bool.or_true] at h
    cases h
  have hname : ∀ name : List Char, 'n' ∈ name → (splitSign text).2.map Char.toLower ≠ name := by
    rintro name hn rfl
    exact hnone hn
  simp only [special?]
  rw [if_neg (not_or.mpr ⟨hname _ (by decide), hname _ (by decide)⟩), if_neg (hname _ (by decide))]

/-- **Behind the screen, the general reader reads decimals and nothing else.** -/
theorem screened_double? (text : List Char) :
    (if text.any isStray then none else double? text) = (Decimal.parse? text).map .decimal := by
  cases hstray : text.any isStray with
  | false =>
      rw [if_neg Bool.false_ne_true, double?, special?_of_not_stray hstray, Option.or_none]
  | true =>
      have hnone : Decimal.parse? text = none := by
        rw [← Option.not_isSome_iff_eq_none, Decimal.isSome_parse?_iff]
        intro hdecimal
        rw [not_stray_of_decimal hdecimal] at hstray
        cases hstray
      rw [if_pos rfl, hnone, Option.map_none]

/-- **Reading a numeral directly**: where no base is announced, as a decimal. -/
def direct? (text : List Char) : Option Numeral :=
  (infinity? text).or <|
    match mark? text with
    | some (radix, digits) => (radix.digits? digits).map (.marked radix)
    | none => (Decimal.parse? text).map .decimal

/-- **The screen and the special names cancel out**: what is read behind the screen is read
directly. -/
theorem parse?_eq_direct? (text : List Char) : parse? text = direct? text := by
  cases hmark : mark? text with
  | none => simp only [parse?, direct?, hmark, screened_double?]
  | some mark => simp only [parse?, direct?, hmark]

end Numeral

/-! ### Numerals -/

namespace Numeral

/-- **The text of a numeral**: an infinity in one of its three spellings, a base and one or more
of its digits, or a decimal. -/
inductive Spelled : List Char → Prop
  | infinity {text : List Char}
      (h : text ∈ ["Infinity".toList, "+Infinity".toList, "-Infinity".toList]) : Spelled text
  | marked {radix : Radix} {letter : Char} {digits : List Char} (hletter : letter ∈ radix.marks)
      (h : DigitRun radix.alphabet digits) : Spelled ('0' :: letter :: digits)
  | decimal {text : List Char} (h : Decimal.Spelled text) : Spelled text

/-- The reader of infinities accepts the three spellings. -/
theorem isSome_infinity?_iff (text : List Char) :
    (infinity? text).isSome = true ↔
      text ∈ ["Infinity".toList, "+Infinity".toList, "-Infinity".toList] := by
  simp only [infinity?, List.mem_cons, List.not_mem_nil, or_false, ← or_assoc]
  split
  · next hplus => exact iff_of_true rfl (.inl hplus)
  · next hplus =>
      split
      · next hminus => exact iff_of_true rfl (.inr hminus)
      · next hminus => exact iff_of_false Bool.false_ne_true (not_or.mpr ⟨hplus, hminus⟩)

/-- The mark of a base stands between a zero and what is read in that base. -/
theorem mark?_eq_some_iff (text : List Char) (radix : Radix) (digits : List Char) :
    mark? text = some (radix, digits) ↔
      ∃ letter ∈ radix.marks, text = '0' :: letter :: digits := by
  unfold mark?
  split
  · next letter rest =>
      simp [← Radix.ofMark?_eq_some_iff]
  · next h =>
      refine iff_of_false (Option.some_ne_none _).symm ?_
      rintro ⟨letter, _, rfl⟩
      exact h letter digits rfl

/-- **A mark commits**: no decimal starts with a zero and the mark of a base. -/
theorem not_decimal_of_mark {radix : Radix} {letter : Char} (hletter : letter ∈ radix.marks)
    (digits : List Char) : ¬ Decimal.Spelled ('0' :: letter :: digits) := by
  rw [← Decimal.isSome_parse?_iff]
  have hparse : Decimal.parse? ('0' :: letter :: digits) = none := by
    cases radix with
    | binary =>
        rcases List.mem_pair.mp hletter with rfl | rfl <;> rfl
    | octal =>
        rcases List.mem_pair.mp hletter with rfl | rfl <;> rfl
    | hexadecimal =>
        rcases List.mem_pair.mp hletter with rfl | rfl <;> rfl
  rw [hparse]
  simp

/-- The name of what is no number is never read. -/
theorem ne_undefined_of_parse? {text : List Char} {numeral : Numeral}
    (h : parse? text = some numeral) : numeral ≠ .undefined := by
  rintro rfl
  rw [parse?_eq_direct?, direct?, Option.or_eq_some_iff] at h
  rcases h with hinfinity | ⟨-, hrest⟩
  · unfold infinity? at hinfinity
    split_ifs at hinfinity <;> cases hinfinity
  · split at hrest
    · obtain ⟨_, _, heq⟩ := Option.map_eq_some_iff.mp hrest
      cases heq
    · obtain ⟨_, _, heq⟩ := Option.map_eq_some_iff.mp hrest
      cases heq

/-- **The reader of numerals** accepts the texts of numerals, and no others. -/
theorem isSome_parse?_iff (text : List Char) :
    (parse? text).isSome = true ↔ Spelled text := by
  rw [parse?_eq_direct?, direct?, Option.isSome_or, Bool.or_eq_true, isSome_infinity?_iff]
  constructor
  · rintro (hinfinity | hrest)
    · exact .infinity hinfinity
    · rcases hmark : mark? text with _ | ⟨radix, digits⟩
      · rw [hmark, Option.isSome_map, Decimal.isSome_parse?_iff] at hrest
        exact .decimal hrest
      · rw [hmark, Option.isSome_map, Radix.isSome_digits?_iff] at hrest
        obtain ⟨letter, hletter, rfl⟩ := (mark?_eq_some_iff text radix digits).mp hmark
        exact .marked hletter hrest
  · intro h
    cases h with
    | infinity h => exact .inl h
    | @marked radix letter digits hletter h =>
        right
        rw [(mark?_eq_some_iff _ radix digits).mpr ⟨letter, hletter, rfl⟩, Option.isSome_map,
          Radix.isSome_digits?_iff]
        exact h
    | decimal h =>
        right
        rcases hmark : mark? text with _ | ⟨radix, digits⟩
        · rw [Option.isSome_map, Decimal.isSome_parse?_iff]
          exact h
        · obtain ⟨letter, hletter, rfl⟩ := (mark?_eq_some_iff text radix digits).mp hmark
          exact absurd h (not_decimal_of_mark hletter digits)

end Numeral

/-! ### Numerals are ASCII -/

theorem Decimal.ascii_alphabet : Ascii alphabet :=
  ascii_of_all (by decide +kernel)

/-- **A numeral is spelled in ASCII.** -/
theorem Numeral.Spelled.ascii {text : List Char} (h : Spelled text) : Ascii text := by
  cases h with
  | infinity h =>
      simp only [List.mem_cons, List.not_mem_nil, or_false] at h
      rcases h with rfl | rfl | rfl <;> exact ascii_of_all (by decide +kernel)
  | @marked radix letter digits hletter h =>
      exact ascii_cons (by decide)
        (ascii_cons (radix.ascii_marks letter hletter) (h.ascii radix.ascii_alphabet))
  | decimal h =>
      exact fun c hc => Decimal.ascii_alphabet c (h.mem_alphabet c hc)

end YarnPreview
