import Mathlib
import YarnPreview.Proofs.Number.Monotone

/-!
# Decimals of a double

A double is written with a fixed number of decimals by rounding its exact value, as a
quotient of natural numbers.  This module says what that rounding is, for either rule at an
exact half, and that it keeps the order.

## Main definitions

* `Tie.Rounds` — rounding to a whole number, a half going where the rule says
* `Magnitude.value` — the number that a magnitude stands for

## Main statements

* `Tie.Rounds.mono`, `Tie.Rounds.unique` — rounding keeps the order, and has one result
* `Tie.rounds_roundDiv` — the rounded quotient
* `decimals?_eq_some_iff` — the decimals of a double
* `decimals?_mono` — the larger double has the larger decimals
* `fixedPoint_one`, `fixedPoint_two` — one decimal and two, digit by digit
* `Nearest.abs_sub_lt` — how far a number is moved when it is rounded to a double
* `Nearest.exactValue_eq_div` — a whole number over a power of two is not moved
-/

namespace YarnPreview

/-! ### Rounding a number -/

namespace Tie

/-- Which of the two whole numbers around an exact half is taken. -/
def Takes : Tie → ℚ → ℕ → Prop
  | up, t, n => t < n
  | toEven, _, n => Even n

/-- **Rounding to a whole number**: to the nearest one, and at an exact half to the one that
the rule takes.  For halves to even this is `RoundsTo`. -/
def Rounds (tie : Tie) (t : ℚ) (n : ℕ) : Prop :=
  |(n : ℚ) - t| < 1 / 2 ∨ |(n : ℚ) - t| = 1 / 2 ∧ tie.Takes t n

namespace Rounds

variable {tie : Tie} {s t : ℚ} {m n : ℕ}

theorem abs_sub_le_half (h : tie.Rounds t n) : |(n : ℚ) - t| ≤ 1 / 2 :=
  h.elim le_of_lt fun h => h.1.le

/-- **Rounding keeps the order.**  Results in the wrong order are next to each other with
both numbers halfway between them, and no rule takes the larger one of one half and the
smaller one of the same half. -/
theorem mono (hm : tie.Rounds s m) (hn : tie.Rounds t n) (h : s ≤ t) : m ≤ n := by
  by_contra hlt
  have hnext : (n : ℚ) + 1 ≤ m := mod_cast not_le.mp hlt
  have hmhalf := (abs_le.mp hm.abs_sub_le_half).2
  have hnhalf := (abs_le.mp hn.abs_sub_le_half).1
  have hmsub : (m : ℚ) - s = 1 / 2 := by linarith
  have hnsub : (n : ℚ) - t = -(1 / 2) := by linarith
  have hmtaken : tie.Takes s m := (hm.resolve_left (by rw [hmsub]; norm_num)).2
  have hntaken : tie.Takes t n := (hn.resolve_left (by rw [hnsub]; norm_num)).2
  cases tie with
  | up =>
      have : t < n := hntaken
      linarith
  | toEven =>
      have heq : m = n + 1 := by
        have : (m : ℚ) = n + 1 := by linarith
        exact_mod_cast this
      rw [heq] at hmtaken
      exact Nat.even_add_one.mp hmtaken hntaken

/-- There is only one. -/
theorem unique (hm : tie.Rounds t m) (hn : tie.Rounds t n) : m = n :=
  le_antisymm (hm.mono hn le_rfl) (hn.mono hm le_rfl)

end Rounds

/-- A whole number is rounded to itself. -/
theorem rounds_self (tie : Tie) (n : ℕ) : tie.Rounds n n := by
  left
  rw [sub_self, abs_zero]
  norm_num

/-- **The rounded quotient.**  Twice the remainder against the divisor is the fraction
against a half. -/
theorem rounds_roundDiv (tie : Tie) (num : ℕ) {den : ℕ} (hden : 0 < den) :
    tie.Rounds (num / den) (roundDiv tie num den) := by
  have hden' : (0 : ℚ) < den := mod_cast hden
  obtain ⟨rest, hrest⟩ : ∃ rest : ℚ, rest = (num % den : ℕ) / den := ⟨_, rfl⟩
  have hquotient : (num : ℚ) / den = (num / den : ℕ) + rest := by
    rw [hrest, div_eq_iff hden'.ne', add_mul, div_mul_cancel₀ _ hden'.ne']
    exact_mod_cast (Nat.div_add_mod' num den).symm
  have hnonneg : 0 ≤ rest := by
    rw [hrest]
    positivity
  have hlt : rest < 1 := by
    rw [hrest, div_lt_one hden']
    exact_mod_cast Nat.mod_lt num hden
  have hbelow : 2 * (num % den) < den ↔ rest < 1 / 2 := by
    rw [hrest, div_lt_div_iff₀ hden' two_pos, one_mul, mul_comm]
    exact_mod_cast Iff.rfl
  have habove : den < 2 * (num % den) ↔ 1 / 2 < rest := by
    rw [hrest, div_lt_div_iff₀ two_pos hden', one_mul, mul_comm _ (2 : ℚ)]
    exact_mod_cast Iff.rfl
  simp only [hquotient, roundDiv, hbelow, habove]
  rcases lt_trichotomy rest (1 / 2) with hlow | rfl | hhigh
  · rw [if_pos hlow]
    refine .inl (abs_sub_lt_iff.mpr ⟨?_, ?_⟩) <;> linarith
  · rw [if_neg (lt_irrefl _), if_neg (lt_irrefl _)]
    have hlower : |((num / den : ℕ) : ℚ) - ((num / den : ℕ) + 1 / 2)| = 1 / 2 := by
      rw [sub_add_cancel_left, abs_neg]
      norm_num
    have hupper : |((num / den + 1 : ℕ) : ℚ) - ((num / den : ℕ) + 1 / 2)| = 1 / 2 := by
      rw [Nat.cast_add_one, add_sub_add_left_eq_sub]
      norm_num
    cases tie with
    | up =>
        refine .inr ⟨hupper, ?_⟩
        show ((num / den : ℕ) : ℚ) + 1 / 2 < (num / den + 1 : ℕ)
        push_cast
        linarith
    | toEven =>
        by_cases heven : num / den % 2 = 0
        · simp only [if_pos heven]
          exact .inr ⟨hlower, Nat.even_iff.mpr heven⟩
        · simp only [if_neg heven]
          exact .inr ⟨hupper, (Nat.not_even_iff_odd.mp (mt Nat.even_iff.mp heven)).add_one⟩
  · rw [if_neg hhigh.not_gt, if_pos hhigh]
    refine .inl (abs_sub_lt_iff.mpr ⟨?_, ?_⟩) <;> push_cast <;> linarith

end Tie

/-! ### The decimals of a double -/

namespace Magnitude

/-- **The number that a magnitude stands for.** -/
def value (m : Magnitude) : ℚ :=
  m.mantissa * 2 ^ m.exponent

/-- A magnitude is its numerator over its denominator. -/
theorem value_eq_div (m : Magnitude) : m.value = m.numerator / m.denominator := by
  have hpower : (2 : ℚ) ^ m.exponent = 2 ^ m.exponent.toNat / 2 ^ (-m.exponent).toNat := by
    rw [eq_div_iff (by positivity), ← zpow_natCast, ← zpow_natCast, ← zpow_add₀ (by norm_num)]
    congr 1
    omega
  rw [value, hpower, numerator, denominator, mul_div_assoc']
  simp only [Nat.pow_eq, Nat.cast_mul, Nat.cast_pow, Nat.cast_ofNat]

/-- The decimals of a magnitude, rounded. -/
theorem rounds_decimals (tie : Tie) (places : ℕ) (m : Magnitude) :
    tie.Rounds (m.value * 10 ^ places) (m.decimals tie places) := by
  have hscaled : m.value * 10 ^ places
      = (m.numerator * Nat.pow 10 places : ℕ) / m.denominator := by
    rw [value_eq_div, div_mul_eq_mul_div]
    simp only [Nat.pow_eq, Nat.cast_mul, Nat.cast_pow, Nat.cast_ofNat]
  rw [hscaled]
  exact tie.rounds_roundDiv _ m.denominator_pos

/-- A finite double has a magnitude, and no other double has. -/
theorem exists_ofFloat?_iff {x : Float} :
    (∃ m, ofFloat? x = some m) ↔ x.isFinite = true := by
  show _ ↔ x.toModel.unpack.isFinite = true
  rw [ofFloat?]
  cases x.toModel.unpack with
  | notANumber => simp [Float.Model.UnpackedFloat.isFinite]
  | infinity sign => simp [Float.Model.UnpackedFloat.isFinite]
  | zero sign => simp [Float.Model.UnpackedFloat.isFinite]
  | finite sign mantissa exponent pos => simp [Float.Model.UnpackedFloat.isFinite]

/-- The magnitude of a double is its absolute value. -/
theorem value_of_ofFloat? {x : Float} {m : Magnitude} (h : ofFloat? x = some m) :
    m.value = |exactValue x| := by
  rw [ofFloat?] at h
  rw [exactValue]
  cases hu : x.toModel.unpack with
  | notANumber => rw [hu] at h; cases h
  | infinity sign => rw [hu] at h; cases h
  | zero sign =>
      rw [hu] at h
      cases h
      simp [value, unpackedValue]
  | finite sign mantissa exponent pos =>
      rw [hu] at h
      cases h
      rw [unpackedValue, cast_apply, Int.cast_natCast, mul_assoc, abs_signFactor_mul,
        abs_of_nonneg (by positivity), value]

end Magnitude

/-- **The decimals of a double**: its absolute value, rounded, if it is finite. -/
theorem decimals?_eq_some_iff {tie : Tie} {places count : ℕ} {x : Float} :
    decimals? tie places x = some count ↔
      x.isFinite = true ∧ tie.Rounds (|exactValue x| * 10 ^ places) count := by
  rw [decimals?, Option.map_eq_some_iff]
  constructor
  · rintro ⟨m, hm, rfl⟩
    refine ⟨Magnitude.exists_ofFloat?_iff.mp ⟨m, hm⟩, ?_⟩
    rw [← Magnitude.value_of_ofFloat? hm]
    exact m.rounds_decimals tie places
  · rintro ⟨hfinite, hrounds⟩
    obtain ⟨m, hm⟩ := Magnitude.exists_ofFloat?_iff.mpr hfinite
    rw [← Magnitude.value_of_ofFloat? hm] at hrounds
    exact ⟨m, hm, (m.rounds_decimals tie places).unique hrounds⟩

/-- A finite double has decimals. -/
theorem exists_decimals? (tie : Tie) (places : ℕ) {x : Float} (hx : x.isFinite = true) :
    ∃ count, decimals? tie places x = some count := by
  obtain ⟨m, hm⟩ := Magnitude.exists_ofFloat?_iff.mpr hx
  exact ⟨_, Option.map_eq_some_iff.mpr ⟨m, hm, rfl⟩⟩

/-- **The larger double has the larger decimals.** -/
theorem decimals?_mono {tie : Tie} {places m n : ℕ} {x y : Float}
    (hm : decimals? tie places x = some m) (hn : decimals? tie places y = some n)
    (hnonneg : 0 ≤ exactValue x) (h : exactValue x ≤ exactValue y) : m ≤ n := by
  refine (decimals?_eq_some_iff.mp hm).2.mono (decimals?_eq_some_iff.mp hn).2 ?_
  rw [abs_of_nonneg hnonneg, abs_of_nonneg (hnonneg.trans h)]
  exact mul_le_mul_of_nonneg_right h (by positivity)

/-! ### Digits -/

/-- One decimal, digit by digit … -/
theorem fixedPoint_one (count : ℕ) :
    fixedPoint 1 count = toString (count / 10) ++ "." ++ toString (count % 10) := by
  have hpad : ∀ digit < 10, String.ofList (List.replicate (1 - (toString digit).length) '0')
      ++ toString digit = toString digit := by decide +kernel
  show toString (count / 10) ++ "." ++ String.ofList (List.replicate _ '0') ++
    toString (count % 10) = _
  rw [String.append_assoc, hpad _ (Nat.mod_lt _ (by norm_num))]

/-- … and two. -/
theorem fixedPoint_two (count : ℕ) :
    fixedPoint 2 count = toString (count / 100) ++ "." ++
      (toString (count % 100 / 10) ++ toString (count % 10)) := by
  have hpad : ∀ rest < 100, String.ofList (List.replicate (2 - (toString rest).length) '0')
      ++ toString rest = toString (rest / 10) ++ toString (rest % 10) := by decide +kernel
  show toString (count / 100) ++ "." ++ String.ofList (List.replicate _ '0') ++
    toString (count % 100) = _
  rw [String.append_assoc, hpad _ (Nat.mod_lt _ (by norm_num)),
    Nat.mod_mod_of_dvd count (by norm_num)]

/-! ### Rounding to a double -/

/-- Division by a number of at least one stays in range. -/
theorem abs_exactValue_div_lt {x : Float} (hx : x.isFinite = true) {d : ℚ} (hd : 1 ≤ d) :
    |exactValue x / d| < overflowLimit := by
  rw [abs_div, abs_of_pos (by linarith : 0 < d)]
  exact (div_le_self (abs_nonneg _) hd).trans_lt (abs_exactValue_lt hx)

namespace Nearest

variable {v w : ℚ} {x y : Float}

/-- Rounding keeps the order of exact values. -/
theorem exactValue_le (hx : Nearest v x) (hy : Nearest w y) (hxfinite : x.isFinite = true)
    (hyfinite : y.isFinite = true) (h : v ≤ w) : exactValue x ≤ exactValue y :=
  (le_iff_exactValue hxfinite hyfinite).mp (hx.mono hy h)

/-- What is rounded from a number that is not negative is not negative. -/
theorem exactValue_nonneg (h : Nearest v x) (hx : x.isFinite = true) (hv : 0 ≤ v) :
    0 ≤ exactValue x := by
  rw [← exactValue_zero] at hv ⊢
  exact (nearest_self rfl).exactValue_le h rfl hx hv

/-- **A whole number over a power of two is not rounded**, if it has at most fifty-three
bits. -/
theorem exactValue_eq_div {n places : ℕ} (h : Nearest (n / 2 ^ places) x) (hn : n ≤ 2 ^ 53)
    (hplaces : places ≤ 1074) : x.isFinite = true ∧ exactValue x = n / 2 ^ places := by
  have hunits : (n : ℚ) / 2 ^ places = n * 2 ^ (-places : ℤ) := by
    rw [zpow_neg, zpow_natCast, div_eq_mul_inv]
  have hrange : (n : ℚ) / 2 ^ places < 2 ^ 1024 := calc
    (n : ℚ) / 2 ^ places ≤ n := div_le_self (by positivity) (one_le_pow₀ (by norm_num))
    _ ≤ 2 ^ 53 := mod_cast hn
    _ < 2 ^ 1024 := pow_lt_pow_right₀ (by norm_num) (by norm_num)
  rw [hunits] at h hrange ⊢
  exact h.exactValue_eq hn (by omega) hrange

/-- **How far a number is moved**: less than a unit in which it has fifty-three bits. -/
theorem abs_sub_lt {unit : ℤ} (h : Nearest v x) (hnonneg : 0 ≤ v) (hunit : -1074 ≤ unit)
    (hlt : v < 2 ^ 53 * 2 ^ unit) (hrange : v < overflowLimit) :
    |exactValue x - v| < 2 ^ unit := by
  have hpos : (0 : ℚ) < 2 ^ unit := by positivity
  obtain ⟨n, hn⟩ : ∃ n : ℕ, n = ⌊v / 2 ^ unit⌋₊ := ⟨_, rfl⟩
  have hlow : (n : ℚ) * 2 ^ unit ≤ v := by
    rw [hn, ← le_div_iff₀ hpos]
    exact Nat.floor_le (by positivity)
  have hhigh : v < (n + 1) * 2 ^ unit := by
    rw [hn, ← div_lt_iff₀ hpos]
    exact Nat.lt_floor_add_one _
  have hwidth : n ≤ 2 ^ 53 := by
    have : (n : ℚ) < 2 ^ 53 := lt_of_mul_lt_mul_right (hlow.trans_lt hlt) hpos.le
    exact_mod_cast this.le
  have hrange' : (n : ℚ) * 2 ^ unit < 2 ^ 1024 :=
    (hlow.trans_lt hrange).trans (sub_lt_self _ (by positivity))
  obtain ⟨y, hy, hvalue⟩ := exists_exactValue_eq .positive hwidth hunit hrange'
  rw [signFactor, one_mul] at hvalue
  -- the whole number of units below is a double, and the nearest one is no farther
  cases h with
  | above hrange' _ => exact absurd hrange (not_lt.mpr hrange')
  | below hrange' _ => linarith [overflowLimit_pos]
  | finite _ _ hle _ =>
      calc |exactValue x - v| ≤ |exactValue y - v| := hle y hy
        _ = v - n * 2 ^ unit := by rw [hvalue, abs_sub_comm, abs_of_nonneg (by linarith)]
        _ < 2 ^ unit := by linarith

end Nearest

end YarnPreview
