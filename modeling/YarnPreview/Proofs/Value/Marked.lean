import Mathlib
import YarnPreview.Proofs.Number.Grammar
import YarnPreview.Proofs.Number.Whole
import YarnPreview.Proofs.Value.Readable

/-!
# Whole numbers in a marked base

A whole number in a marked base is read digit by digit, and every step is rounded.  This module
says what the reader makes of the exact whole number: when it is the nearest double, and which
digits it loses otherwise.

## Main definitions

* `Radix.wholeValue` — the whole number that digits spell
* `Radix.LosesTie` — the digits that are read as the wrong one of two neighbours

## Main statements

* `Radix.fold_of_lt` — up to fifty-three bits every step is exact
* `whole_step` — from then on a further digit is only a further place
* `Radix.nearest_fold_iff` — the digits that are read as the nearest double
* `Value.nearest_coerce_marked` — the same of texts

## Where a digit is lost

The first digits spell a whole number below two to the fifty-third, exactly.  One digit takes it
past that, and this one sum is rounded.  Every later digit is smaller than half a unit of the
last place and is rounded away, so it has no say in which way the one sum went.  It should have
had a say in one case only: the sum was a tie, it went down, and a later digit is not zero.
-/

namespace YarnPreview

/-! ### Positional notation -/

/-- The value of a digit, small and capital letters alike. -/
def letterValue (c : Char) : ℕ :=
  "0123456789abcdef".toList.idxOf c.toLower

namespace Radix

variable (radix : Radix)

/-- **The whole number that digits spell**, the last one counting ones. -/
def wholeValue (digits : List ℕ) : ℕ :=
  Nat.ofDigits radix.base digits.reverse

/-- The bits of one digit. -/
def width : Radix → ℕ
  | binary => 1
  | octal => 3
  | hexadecimal => 4

theorem base_eq_two_pow : radix.base = 2 ^ radix.width := by
  cases radix <;> rfl

/-- A further digit is a further few bits. -/
theorem mul_two_pow_mul_base (n places : ℕ) :
    n * 2 ^ places * radix.base = n * 2 ^ (places + radix.width) := by
  rw [radix.base_eq_two_pow, pow_add, mul_assoc]

@[simp] theorem wholeValue_nil : radix.wholeValue [] = 0 := rfl

theorem wholeValue_append (front back : List ℕ) :
    radix.wholeValue (front ++ back)
      = radix.wholeValue front * radix.base ^ back.length + radix.wholeValue back := by
  rw [wholeValue, List.reverse_append, Nat.ofDigits_append, List.length_reverse]
  unfold wholeValue
  ring

theorem wholeValue_concat (front : List ℕ) (d : ℕ) :
    radix.wholeValue (front ++ [d]) = radix.wholeValue front * radix.base + d := by
  rw [wholeValue_append, List.length_singleton, pow_one]
  simp [wholeValue]

theorem wholeValue_lt {digits : List ℕ} (h : ∀ d ∈ digits, d < radix.base) :
    radix.wholeValue digits < radix.base ^ digits.length := by
  have hbase : 1 < radix.base := by cases radix <;> decide
  rw [wholeValue, ← List.length_reverse]
  exact Nat.ofDigits_lt_base_pow_length hbase fun d hd => h d (List.mem_reverse.mp hd)

/-- The reader of digits agrees on the value of a digit. -/
theorem digit?_eq_some_letterValue {c : Char} (h : c ∈ radix.alphabet) :
    radix.digit? c = some (letterValue c) ∧ letterValue c < radix.base := by
  have hall : radix.alphabet.all (fun c => radix.digit? c == some (letterValue c) &&
      letterValue c < radix.base) = true := by
    cases radix <;> decide +kernel
  simpa using List.all_eq_true.mp hall c h

/-- So it agrees on the digits of a text. -/
theorem digits?_eq_some {text : List Char} (h : DigitRun radix.alphabet text) :
    radix.digits? text = some (text.map letterValue) := by
  have hall : ∀ text : List Char, (∀ c ∈ text, c ∈ radix.alphabet) →
      text.mapM radix.digit? = some (text.map letterValue) := by
    intro text htext
    induction text with
    | nil => rfl
    | cons c rest ih =>
        obtain ⟨hc, hrest⟩ := List.forall_mem_cons.mp htext
        rw [List.mapM_cons, (radix.digit?_eq_some_letterValue hc).1, ih hrest]
        rfl
  rw [digits?, hall text h.mem]
  exact h.ne_nil

end Radix

/-- **The digits that are read as the wrong one of two neighbours**: those up to where the
whole number passes fifty-three bits spell a tie that goes down, a later one is not zero, and
all of it is in range. -/
def Radix.LosesTie (radix : Radix) (digits : List ℕ) : Prop :=
  ∃ (front : List ℕ) (last : ℕ) (back : List ℕ), digits = front ++ last :: back ∧
    radix.wholeValue front < 2 ^ 53 ∧ LowerTie (radix.wholeValue (front ++ [last])) ∧
    0 < radix.wholeValue back ∧ radix.wholeValue digits < 2 ^ 1024

/-! ### One more digit -/

section Step

variable (radix : Radix) {x : Float} {d : ℕ}

/-- A digit and a base are doubles. -/
theorem Radix.exactValue_ofNat_base :
    (Float.ofNat radix.base).isFinite = true ∧ exactValue (Float.ofNat radix.base) = radix.base :=
  exactValue_ofNat (by cases radix <;> decide)

theorem Radix.exactValue_ofNat_digit (hd : d < radix.base) :
    (Float.ofNat d).isFinite = true ∧ exactValue (Float.ofNat d) = d :=
  exactValue_ofNat (hd.trans (by cases radix <;> decide))

/-- One more digit: the product is exact, and the sum is rounded. -/
theorem nearest_step {n places : ℕ} (hn : n ≤ 2 ^ 53) (hfinite : x.isFinite = true)
    (hvalue : exactValue x = (n * 2 ^ places : ℕ)) (hd : d < radix.base)
    (hrange : n * 2 ^ places * radix.base < 2 ^ 1024) :
    Nearest (n * 2 ^ places * radix.base + d : ℕ)
      (x * Float.ofNat radix.base + Float.ofNat d) := by
  obtain ⟨hbase, hbasevalue⟩ := radix.exactValue_ofNat_base
  obtain ⟨hdigit, hdigitvalue⟩ := radix.exactValue_ofNat_digit hd
  obtain ⟨y, hy, hyvalue⟩ :=
    exists_exactValue_natCast hn (radix.mul_two_pow_mul_base n places ▸ hrange)
  rw [← radix.mul_two_pow_mul_base] at hyvalue
  have hproduct := nearest_mul hfinite hbase
  rw [hvalue, hbasevalue, ← Nat.cast_mul, ← hyvalue, nearest_exactValue_iff hy, hyvalue] at hproduct
  have hsum := nearest_add hproduct.1 hdigit
  rwa [hproduct.2, hdigitvalue, ← Nat.cast_add] at hsum

/-- One more digit on fifty-three bits. -/
theorem nearest_step_of_lt {n : ℕ} (hn : n < 2 ^ 53) (hfinite : x.isFinite = true)
    (hvalue : exactValue x = n) (hd : d < radix.base) :
    Nearest (n * radix.base + d : ℕ) (x * Float.ofNat radix.base + Float.ofNat d) := by
  have hone : n * 2 ^ 0 = n := by rw [pow_zero, mul_one]
  have hrange : ∀ k, 53 + (0 + radix.width) ≤ k → n * 2 ^ 0 * radix.base < 2 ^ k := by
    intro k hk
    rw [radix.mul_two_pow_mul_base]
    calc n * 2 ^ (0 + radix.width) < 2 ^ 53 * 2 ^ (0 + radix.width) :=
          Nat.mul_lt_mul_of_pos_right hn (by positivity)
      _ = 2 ^ (53 + (0 + radix.width)) := (pow_add 2 53 _).symm
      _ ≤ 2 ^ k := Nat.pow_le_pow_right two_pos hk
  have hnearest := nearest_step radix hn.le hfinite (hone.symm ▸ hvalue) hd
    (hrange 1024 (by cases radix <;> decide))
  rwa [hone] at hnearest

/-- Beyond the range neither of the two operations changes anything. -/
theorem infinite_mul_base : infinite false * Float.ofNat radix.base = infinite false := by
  cases radix <;> decide +kernel

theorem infinite_add_digit (hd : d < radix.base) :
    infinite false + Float.ofNat d = infinite false := by
  revert d
  cases radix <;> decide +kernel

/-- **Past fifty-three bits a further digit is a further place**: it is smaller than half a unit
of the last place, and is rounded away. -/
theorem whole_step {n places : ℕ} (hlow : 2 ^ 52 ≤ n) (hhigh : n < 2 ^ 53)
    (hd : d < radix.base) (h : Whole (n * 2 ^ (places + 1)) x) :
    Whole (n * 2 ^ (places + 1) * radix.base)
      (x * Float.ofNat radix.base + Float.ofNat d) := by
  cases h with
  | finite hrange hfinite hvalue =>
      by_cases hover : n * 2 ^ (places + 1) * radix.base < 2 ^ 1024
      · have hnearest := nearest_step radix hhigh.le hfinite hvalue hd hover
        have hsmall : 2 * d < 2 ^ (places + 1 + radix.width) := by
          rw [radix.base_eq_two_pow] at hd
          calc 2 * d < 2 * 2 ^ radix.width := by omega
            _ = 2 ^ (1 + radix.width) := by rw [pow_add, pow_one]
            _ ≤ 2 ^ (places + 1 + radix.width) := Nat.pow_le_pow_right two_pos (by omega)
        rw [radix.mul_two_pow_mul_base] at hnearest ⊢
        exact (nearest_add_small_iff hlow hhigh hsmall _).mp hnearest
      · obtain ⟨hfinite', hvalue'⟩ := radix.exactValue_ofNat_base
        have hproduct := nearest_mul hfinite hfinite'
        rw [hvalue, hvalue', ← Nat.cast_mul] at hproduct
        refine .infinite (not_lt.mp hover) ?_
        rw [hproduct.eq_infinite (not_lt.mp hover), infinite_add_digit radix hd]
  | infinite hrange hx =>
      refine .infinite (hrange.trans (Nat.le_mul_of_pos_right _ (Nat.zero_lt_of_lt hd))) ?_
      rw [hx, infinite_mul_base, infinite_add_digit radix hd]

end Step

/-! ### All digits -/

namespace Radix

variable (radix : Radix) {front back digits : List ℕ} {last : ℕ}

/-- **Up to fifty-three bits every step is exact.** -/
theorem fold_of_lt (h : ∀ d ∈ digits, d < radix.base) (hlt : radix.wholeValue digits < 2 ^ 53) :
    (radix.fold digits).isFinite = true ∧
      exactValue (radix.fold digits) = radix.wholeValue digits := by
  induction digits using List.reverseRecOn with
  | nil =>
      rw [fold_nil, wholeValue_nil, ← nearest_natCast_of_lt (by decide)]
      have hzero : (0.0 : Float) = .ofModel (.pack (.zero .positive)) := by decide +kernel
      rw [hzero, Nat.cast_zero]
      exact nearest_zero .positive
  | append_singleton digits d ih =>
      obtain ⟨hdigits, hd⟩ := List.forall_mem_append.mp h
      have hbase : 0 < radix.base := by cases radix <;> decide
      have hle : radix.wholeValue digits ≤ radix.wholeValue digits * radix.base :=
        Nat.le_mul_of_pos_right _ hbase
      rw [wholeValue_concat] at hlt ⊢
      have hfirst : radix.wholeValue digits < 2 ^ 53 := by omega
      obtain ⟨hfinite, hvalue⟩ := ih hdigits hfirst
      rw [fold_concat, ← nearest_natCast_of_lt hlt]
      exact nearest_step_of_lt radix hfirst hfinite hvalue (hd d List.mem_cons_self)

/-- One digit takes the whole number past fifty-three bits. -/
theorem exists_passing (h : 2 ^ 53 ≤ radix.wholeValue digits) :
    ∃ front last back, digits = front ++ last :: back ∧ radix.wholeValue front < 2 ^ 53 ∧
      2 ^ 53 ≤ radix.wholeValue (front ++ [last]) := by
  induction digits using List.reverseRecOn with
  | nil =>
      rw [wholeValue_nil] at h
      exact absurd h (by decide)
  | append_singleton digits d ih =>
      by_cases hpassed : 2 ^ 53 ≤ radix.wholeValue digits
      · obtain ⟨front, last, back, rfl, hfront, hpassing⟩ := ih hpassed
        exact ⟨front, last, back ++ [d], by simp, hfront, hpassing⟩
      · exact ⟨digits, d, [], rfl, not_le.mp hpassed, h⟩

/-- **Later digits are further places** of what the first ones were rounded to. -/
theorem whole_fold_append {n places : ℕ} (hlow : 2 ^ 52 ≤ n) (hhigh : n < 2 ^ 53)
    (hback : ∀ d ∈ back, d < radix.base)
    (h : Whole (n * 2 ^ (places + 1)) (radix.fold front)) :
    Whole (n * 2 ^ (places + 1 + radix.width * back.length)) (radix.fold (front ++ back)) := by
  induction back using List.reverseRecOn with
  | nil => simpa using h
  | append_singleton back d ih =>
      obtain ⟨hback, hd⟩ := List.forall_mem_append.mp hback
      have hplaces : places + 1 + radix.width * back.length
          = places + radix.width * back.length + 1 := by omega
      have hstep := ih hback
      rw [hplaces] at hstep
      have hnext := whole_step radix hlow hhigh (hd d List.mem_cons_self) hstep
      rw [← List.append_assoc, fold_concat, List.length_append, List.length_singleton, mul_add,
        mul_one, ← add_assoc, hplaces, ← mul_two_pow_mul_base]
      exact hnext

/-- So they are after a carry: that is the same number with one more zero. -/
theorem whole_fold_append_of_le {n places : ℕ} (hlow : 2 ^ 52 ≤ n) (hhigh : n ≤ 2 ^ 53)
    (hback : ∀ d ∈ back, d < radix.base)
    (h : Whole (n * 2 ^ (places + 1)) (radix.fold front)) :
    Whole (n * 2 ^ (places + 1 + radix.width * back.length)) (radix.fold (front ++ back)) := by
  rcases hhigh.lt_or_eq with hlt | rfl
  · exact radix.whole_fold_append hlow hlt hback h
  · have hcarry : ∀ k, 2 ^ 53 * 2 ^ k = 2 ^ 52 * 2 ^ (1 + k) := by
      intro k
      rw [← pow_add, ← pow_add, ← add_assoc]
    rw [hcarry, ← add_assoc] at h
    rw [hcarry, ← add_assoc, ← add_assoc]
    exact radix.whole_fold_append le_rfl (by decide) hback h

/-- **Where the whole number passes fifty-three bits** it is decided whether the nearest double
is read. -/
theorem nearest_fold_passing_iff (h : ∀ d ∈ front ++ last :: back, d < radix.base)
    (hfront : radix.wholeValue front < 2 ^ 53)
    (hpassing : 2 ^ 53 ≤ radix.wholeValue (front ++ [last])) :
    Nearest (radix.wholeValue (front ++ last :: back)) (radix.fold (front ++ last :: back)) ↔
      ¬ (LowerTie (radix.wholeValue (front ++ [last])) ∧ 0 < radix.wholeValue back ∧
        radix.wholeValue (front ++ last :: back) < 2 ^ 1024) := by
  obtain ⟨hdigits, hd, hback⟩ : (∀ d ∈ front, d < radix.base) ∧ last < radix.base ∧
      ∀ d ∈ back, d < radix.base := by
    rwa [List.forall_mem_append, List.forall_mem_cons] at h
  -- one sum is rounded
  obtain ⟨hfinite, hvalue⟩ := radix.fold_of_lt hdigits hfront
  have hnearest := nearest_step_of_lt radix hfront hfinite hvalue hd
  rw [← fold_concat, ← wholeValue_concat] at hnearest
  -- all else is further places
  have hsplit : front ++ last :: back = front ++ [last] ++ back := by simp
  have hpower : radix.base ^ back.length = 2 ^ (radix.width * back.length) := by
    rw [base_eq_two_pow, pow_mul]
  have hrest := radix.wholeValue_lt hback
  rw [hpower] at hrest
  rw [hsplit, wholeValue_append, hpower]
  generalize radix.wholeValue (front ++ [last]) = whole at hpassing hnearest ⊢
  obtain ⟨places, hlow, hhigh⟩ : ∃ places, 2 ^ 52 * 2 ^ (places + 1) ≤ whole ∧
      whole < 2 ^ 53 * 2 ^ (places + 1) := exists_places hpassing
  have hscaled := scaled_natCast hlow hhigh
  obtain ⟨n, hn⟩ := RoundsTo.exists_of_nonneg hscaled.nonneg
  obtain ⟨hle, hfull⟩ := hscaled.le_of_roundsTo hn
  have hwhole := radix.whole_fold_append_of_le (hfull.resolve_right (by omega)) hle hback
    ((nearest_natCast_iff hscaled hn _).mp hnearest)
  exact nearest_more_places_iff hlow hhigh hn hrest hwhole

/-- **The digits that are read as the nearest double** are those that lose no tie. -/
theorem nearest_fold_iff (h : ∀ d ∈ digits, d < radix.base) :
    Nearest (radix.wholeValue digits) (radix.fold digits) ↔ ¬ radix.LosesTie digits := by
  constructor
  · rintro hnearest ⟨front, last, back, rfl, hfront, htie, hback, hrange⟩
    exact (radix.nearest_fold_passing_iff h hfront htie.le).mp hnearest ⟨htie, hback, hrange⟩
  · intro hkept
    rcases lt_or_ge (radix.wholeValue digits) (2 ^ 53) with hlt | hge
    · exact (nearest_natCast_of_lt hlt _).mpr (radix.fold_of_lt h hlt)
    · obtain ⟨front, last, back, rfl, hfront, hpassing⟩ := radix.exists_passing hge
      rw [radix.nearest_fold_passing_iff h hfront hpassing]
      rintro ⟨htie, hback, hrange⟩
      exact hkept ⟨front, last, back, rfl, hfront, htie, hback, hrange⟩

/-- Up to fifty-three bits there is no tie to lose. -/
theorem not_losesTie_of_lt (h : radix.wholeValue digits < 2 ^ 53) : ¬ radix.LosesTie digits := by
  rintro ⟨front, last, back, rfl, -, htie, -, -⟩
  have hsplit : front ++ last :: back = front ++ [last] ++ back := by simp
  have hpos : 0 < radix.base ^ back.length := by
    rw [base_eq_two_pow]
    positivity
  have hle := Nat.le_mul_of_pos_right (radix.wholeValue (front ++ [last])) hpos
  have hge := htie.le
  rw [hsplit, wholeValue_append] at h
  omega

end Radix

/-! ### Texts -/

namespace Value

variable {radix : Radix} {letter : Char} {text : List Char}

/-- A marked text has no padding. -/
theorem trim_marked (h : DigitRun radix.alphabet text) :
    Text.trim ('0' :: letter :: text) = '0' :: letter :: text := by
  have hblank : ∀ c ∈ radix.alphabet, Text.isBlank c = false := by
    have hall : radix.alphabet.all (fun c => !Text.isBlank c) = true := by
      cases radix <;> decide +kernel
    simpa using hall
  refine ((Text.trims_iff _ _).mp ⟨⟨[], [], nofun, nofun, by simp⟩, ?_, ?_⟩).symm
  · intro c hc
    cases hc
    decide
  · intro c hc
    rw [List.getLast?_cons_cons, List.getLast?_cons_of_ne_nil h.ne_nil] at hc
    exact hblank c (h.mem c (List.mem_of_getLast? hc))

/-- **A marked text is read as the fold of its digits.** -/
theorem coerce_marked (hletter : letter ∈ radix.marks) (h : DigitRun radix.alphabet text) :
    coerce (.string (String.ofList ('0' :: letter :: text)))
      = radix.fold (text.map letterValue) := by
  have hinfinity : Numeral.infinity? ('0' :: letter :: text) = none := by
    rw [← Option.not_isSome_iff_eq_none, Numeral.isSome_infinity?_iff]
    simp
  have hmark : Numeral.mark? ('0' :: letter :: text) = some (radix, text) :=
    (Numeral.mark?_eq_some_iff _ _ _).mpr ⟨letter, hletter, rfl⟩
  have hparse : Numeral.parse? ('0' :: letter :: text)
      = some (.marked radix (text.map letterValue)) := by
    simp only [Numeral.parse?, hinfinity, hmark, radix.digits?_eq_some h, Option.none_or,
      Option.map_some]
  rw [coerce_string, String.toList_ofList, coerceText, trim_marked h]
  simp only [hparse, Option.elim_some, Numeral.toFloat]

/-- **The double of a marked text** has a plus sign, and it is the nearest double to the whole
number that the digits spell unless they lose a tie. -/
theorem nearest_coerce_marked (hletter : letter ∈ radix.marks)
    (h : DigitRun radix.alphabet text) :
    sign? (coerce (.string (String.ofList ('0' :: letter :: text)))) = some .positive ∧
      (Nearest (radix.wholeValue (text.map letterValue))
          (coerce (.string (String.ofList ('0' :: letter :: text)))) ↔
        ¬ radix.LosesTie (text.map letterValue)) := by
  have hdigits : ∀ d ∈ text.map letterValue, d < radix.base := by
    intro d hd
    obtain ⟨c, hc, rfl⟩ := List.mem_map.mp hd
    exact (radix.digit?_eq_some_letterValue (h.mem c hc)).2
  rw [coerce_marked hletter h]
  exact ⟨radix.sign?_fold _, radix.nearest_fold_iff hdigits⟩

/-- Fifty-three ones, in capital and in small letters. -/
theorem nearest_coerce_marked_ones :
    sign? (coerce (.string "0X1FffffFFFFffff")) = some .positive ∧
      Nearest (2 ^ 53 - 1 : ℕ) (coerce (.string "0X1FffffFFFFffff")) := by
  have hrun : DigitRun Radix.hexadecimal.alphabet "1FffffFFFFffff".toList :=
    (Radix.isSome_digits?_iff _ _).mp (by decide +kernel)
  have hvalue : Radix.hexadecimal.wholeValue ("1FffffFFFFffff".toList.map letterValue)
      = 2 ^ 53 - 1 := by
    decide +kernel
  obtain ⟨hsign, hnearest⟩ := @nearest_coerce_marked .hexadecimal 'X' _ (by decide) hrun
  rw [hvalue] at hnearest
  refine ⟨hsign, hnearest.mpr (Radix.not_losesTie_of_lt _ ?_)⟩
  rw [hvalue]
  decide

/-- **A tie that is lost**: of two neighbours the lower one is read, although the whole number
lies nearer to the upper one. -/
theorem not_nearest_coerce_marked :
    Radix.hexadecimal.wholeValue ("200000000000011".toList.map letterValue) = 2 ^ 57 + 17 ∧
      coerce (.string "0x200000000000011") = 144115188075855872.0 ∧
      ¬ Nearest (2 ^ 57 + 17 : ℕ) (coerce (.string "0x200000000000011")) ∧
      Nearest (2 ^ 57 + 17 : ℕ) 144115188075855904.0 := by
  have hread : coerce (.string "0x200000000000011") = 144115188075855872.0 := by decide +kernel
  have hscaled : Scaled ((2 ^ 57 + 17 : ℕ) / 2 ^ 5) (5 : ℕ) :=
    scaled_natCast (by norm_num) (by norm_num)
  have hrounds : RoundsTo ((2 ^ 57 + 17 : ℕ) / 2 ^ 5) (2 ^ 52 + 1) := by
    left
    norm_num [abs_lt]
  have hlower : Whole (2 ^ 52 * 2 ^ 5) 144115188075855872.0 := by
    have hunpack : (144115188075855872.0 : Float).toModel.unpack
        = .finite .positive (2 ^ 52) 5 (by norm_num) := rfl
    refine .finite (by decide +kernel) rfl ?_
    rw [exactValue, hunpack, unpackedValue]
    norm_num [Float.Model.UnpackedFloat.Sign.apply]
  have hupper : Whole ((2 ^ 52 + 1) * 2 ^ 5) 144115188075855904.0 := by
    have hunpack : (144115188075855904.0 : Float).toModel.unpack
        = .finite .positive (2 ^ 52 + 1) 5 (by norm_num) := rfl
    refine .finite (by decide +kernel) rfl ?_
    rw [exactValue, hunpack, unpackedValue]
    norm_num [Float.Model.UnpackedFloat.Sign.apply]
  refine ⟨by decide +kernel, hread, ?_, (nearest_natCast_iff hscaled hrounds _).mpr hupper⟩
  rw [hread, nearest_natCast_iff hscaled hrounds]
  intro hother
  exact absurd (hlower.unique hother (by decide +kernel)) (by norm_num)

end Value

end YarnPreview
