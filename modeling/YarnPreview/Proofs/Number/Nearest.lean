import Mathlib
import YarnPreview.Proofs.Number.Packing

/-!
# The nearest double

A number that is no double is replaced by the nearest one.  This module states what that means
without the bits of a double, and shows that there is one nearest double up to the sign of a
zero.

## Main definitions

* `Nearest` — the nearest double to a rational number, halves to even, infinities beyond range
* `signFactor`, `signedInfinity` — signs as factors and as infinities

## Main statements

* `le_or_le_of_isFinite` — no double lies between two neighbours
* `nearest_iff` — the nearest double by its exact value
* `nearest_exactValue_iff` — a double is its own nearest double

## How neighbours are told apart

A number is measured in units of its last place, so that its neighbours are whole numbers with
at most fifty-three bits.  A double with a finer unit is too small to come between them, and one
with a coarser unit is a whole number itself.
-/

namespace YarnPreview

open Float.Model (Format UnpackedFloat)
open Float.Model.UnpackedFloat (Sign unpackExponent)

/-! ### The specification -/

/-- From here on a magnitude is rounded to an infinity: it lies halfway between the largest
finite double and the next power of two. -/
def overflowLimit : ℚ := 2 ^ 1024 - 2 ^ 970

/-- The mantissa of a finite double is even. -/
def EvenMantissa (x : Float) : Prop :=
  ∃ magnitude, Magnitude.ofFloat? x = some magnitude ∧ Even magnitude.mantissa

/-- **The nearest double to a number.**  In range no other is nearer, and if another is as near,
this one has an even mantissa; out of range it is an infinity. -/
inductive Nearest (v : ℚ) (x : Float) : Prop
  | finite (hrange : |v| < overflowLimit) (hfinite : x.isFinite = true)
      (hle : ∀ y : Float, y.isFinite = true → |exactValue x - v| ≤ |exactValue y - v|)
      (heven : ∀ y : Float, y.isFinite = true → exactValue y ≠ exactValue x →
        |exactValue y - v| = |exactValue x - v| → EvenMantissa x)
  | above (hrange : overflowLimit ≤ v) (hx : x = infinite false)
  | below (hrange : v ≤ -overflowLimit) (hx : x = infinite true)

/-! ### Signs and shapes -/

/-- A sign as a factor. -/
def signFactor : Sign → ℚ
  | .positive => 1
  | .negative => -1

/-- The infinity with a sign. -/
def signedInfinity : Sign → Float
  | .positive => infinite false
  | .negative => infinite true

@[simp] theorem signFactor_mul_signFactor_mul (sign : Sign) (a : ℚ) :
    signFactor sign * (signFactor sign * a) = a := by
  cases sign <;> simp [signFactor]

theorem signFactor_mul (sign sign' : Sign) :
    signFactor (sign * sign') = signFactor sign * signFactor sign' := by
  cases sign <;> cases sign' <;> norm_num [signFactor]

theorem abs_signFactor_mul (sign : Sign) (a : ℚ) : |signFactor sign * a| = |a| := by
  cases sign <;> simp [signFactor]

theorem cast_apply (sign : Sign) (n : ℤ) : ((sign.apply n : ℤ) : ℚ) = signFactor sign * n := by
  cases sign <;> simp [signFactor, Sign.apply]

namespace WellShaped

variable {sign : Sign} {magnitude : ℚ} {w : UnpackedFloat}

theorem isFinite (h : WellShaped sign magnitude w) : w.isFinite = true := by
  cases h <;> rfl

theorem unpackedValue_eq (h : WellShaped sign magnitude w) :
    unpackedValue w = signFactor sign * magnitude := by
  cases h with
  | zero hzero =>
      rw [hzero, mul_zero]
      rfl
  | finite hshape hmagnitude pos =>
      rw [unpackedValue, cast_apply, Int.cast_natCast, mul_assoc, hmagnitude]

end WellShaped

/-- The exponent of a finite double is in range. -/
theorem exponent_le_of_unpack {bits : BitVec Format.binary64.numBits} {sign : Sign}
    {mantissa : ℕ} {exponent : ℤ} {pos : 0 < mantissa}
    (h : UnpackedFloat.unpack Format.binary64 bits = .finite sign mantissa exponent pos) :
    exponent ≤ 971 := by
  have hbias : ((Format.binary64.exponentBias : ℕ) : ℤ) = 1023 := rfl
  have hwidth : ((Format.binary64.mantissaBitsWithoutImplicit : ℕ) : ℤ) = 52 := rfl
  have hstored : (unpackExponent bits).toNat < 2 ^ 11 := (unpackExponent bits).isLt
  simp only [UnpackedFloat.unpack] at h
  split at h
  · split at h <;> cases h
  · next hgreatest =>
      have hne : (unpackExponent bits).toNat ≠ 2047 := fun heq =>
        hgreatest (BitVec.eq_of_toNat_eq heq)
      split at h
      · next hleast =>
          split at h
          · cases h
          · cases h
            have hzero : (unpackExponent bits).toNat = 0 := by rw [hleast]; rfl
            omega
      · cases h
        omega

/-- **A finite double is in normal shape and in range.** -/
theorem exists_wellShaped {x : Float} (hx : x.isFinite = true) :
    ∃ sign magnitude, WellShaped sign magnitude x.toModel.unpack ∧ magnitude < 2 ^ 1024 := by
  have hfinite : x.toModel.unpack.isFinite = true := hx
  cases hu : x.toModel.unpack with
  | notANumber => rw [hu] at hfinite; cases hfinite
  | infinity sign => rw [hu] at hfinite; cases hfinite
  | zero sign => exact ⟨sign, 0, .zero rfl, by positivity⟩
  | finite sign mantissa exponent pos =>
      have hshape := normalised_of_unpack hu
      exact ⟨sign, _, .finite hshape rfl pos,
        hshape.exponent_le_iff.mp (exponent_le_of_unpack hu)⟩

/-- A finite double is an integer of at most fifty-three bits times a power of two. -/
theorem exists_int_mul_zpow {x : Float} (hx : x.isFinite = true) :
    ∃ k e : ℤ, |k| < 2 ^ 53 ∧ -1074 ≤ e ∧ exactValue x = k * 2 ^ e := by
  obtain ⟨sign, magnitude, hshape, -⟩ := exists_wellShaped hx
  rw [exactValue, hshape.unpackedValue_eq]
  generalize x.toModel.unpack = w at hshape
  cases hshape with
  | zero hzero => exact ⟨0, 0, by norm_num, by norm_num, by simp [hzero]⟩
  | @finite mantissa exponent hnormal hmagnitude pos =>
      refine ⟨sign.apply mantissa, exponent, ?_, hnormal.least_le, ?_⟩
      · have hlt : (mantissa : ℤ) < 2 ^ 53 := mod_cast hnormal.mantissa_lt
        cases sign <;> simpa [Sign.apply] using hlt
      · rw [cast_apply, Int.cast_natCast, mul_assoc, hmagnitude]

/-- A mantissa that is too short can be filled up, down to the least exponent. -/
theorem exists_full {n : ℕ} {unit : ℤ} (hn : n ≤ 2 ^ 53) (hunit : -1074 ≤ unit) :
    ∃ (m : ℕ) (e : ℤ), m ≤ 2 ^ 53 ∧ -1074 ≤ e ∧ (2 ^ 52 ≤ m ∨ e = -1074) ∧
      (m : ℚ) * 2 ^ e = n * 2 ^ unit := by
  rcases Nat.eq_zero_or_pos n with rfl | hpos
  · exact ⟨0, -1074, by norm_num, le_rfl, .inr rfl, by simp⟩
  set places := min (52 - n.log2) (unit + 1074).toNat with hplaces
  have hlow : 2 ^ (n.log2 + places) ≤ n * 2 ^ places := by
    rw [pow_add]
    exact Nat.mul_le_mul_right _ (Nat.log2_self_le hpos.ne')
  refine ⟨n * 2 ^ places, unit - places, ?_, by omega, ?_, ?_⟩
  · by_cases hlog : n.log2 ≤ 52
    · have hhigh : n * 2 ^ places < 2 ^ (n.log2 + 1 + places) := by
        rw [pow_add]
        exact Nat.mul_lt_mul_of_pos_right Nat.lt_log2_self (by positivity)
      exact hhigh.le.trans (Nat.pow_le_pow_right (by norm_num) (by omega))
    · have hnone : places = 0 := by omega
      rwa [hnone, pow_zero, mul_one]
  · by_cases hleast : unit - places = -1074
    · exact .inr hleast
    · exact .inl ((Nat.pow_le_pow_right (by norm_num) (by omega)).trans hlow)
  · rw [zpow_sub₀ (by norm_num), zpow_natCast]
    push_cast
    field_simp

/-- **Every number of this form is a double**, if it is in range. -/
theorem exists_exactValue_eq (sign : Sign) {n : ℕ} {unit : ℤ} (hn : n ≤ 2 ^ 53)
    (hunit : -1074 ≤ unit) (hrange : (n : ℚ) * 2 ^ unit < 2 ^ 1024) :
    ∃ x : Float, x.isFinite = true ∧ exactValue x = signFactor sign * (n * 2 ^ unit) := by
  obtain ⟨m, e, hm, he, hfull, hvalue⟩ := exists_full hn hunit
  rw [← hvalue] at hrange ⊢
  obtain ⟨hnormal, hcarry⟩ := shiftToTargetExponent_carry hm he hfull
  obtain ⟨w, hw⟩ : ∃ w, WellShaped sign (m * 2 ^ e) w := by
    rcases Nat.eq_zero_or_pos
      (Float.Model.UnpackedFloat.shiftToTargetExponent _ m e .exact).1.mantissa with hzero | hpos
    · refine ⟨.zero sign, .zero ?_⟩
      rw [← hcarry, hzero, Nat.cast_zero, zero_mul]
    · exact ⟨_, .finite hnormal hcarry hpos⟩
  refine ⟨.ofModel (.pack w), ?_, ?_⟩
  · show (Float.Model.pack w).unpack.isFinite = true
    rw [hw.unpack_pack_of_lt hrange]
    exact hw.isFinite
  · show unpackedValue (Float.Model.pack w).unpack = _
    rw [hw.unpack_pack_of_lt hrange]
    exact hw.unpackedValue_eq

/-- A whole number with at most fifty-three bits and zeros is a double, if it is in range. -/
theorem exists_exactValue_natCast {n places : ℕ} (hn : n ≤ 2 ^ 53)
    (hrange : n * 2 ^ places < 2 ^ 1024) :
    ∃ x : Float, x.isFinite = true ∧ exactValue x = (n * 2 ^ places : ℕ) := by
  have hcast : ((n * 2 ^ places : ℕ) : ℚ) = n * 2 ^ (places : ℤ) := by
    rw [zpow_natCast]
    push_cast
    rfl
  have hunit : (-1074 : ℤ) ≤ places := by omega
  obtain ⟨x, hx, hvalue⟩ := exists_exactValue_eq .positive hn hunit (hcast ▸ mod_cast hrange)
  exact ⟨x, hx, by rw [hvalue, hcast, signFactor, one_mul]⟩

/-- **No double lies between two neighbours.** -/
theorem le_or_le_of_isFinite {y : Float} (hy : y.isFinite = true) (sign : Sign) {n : ℕ}
    {unit : ℤ} (hfull : 2 ^ 52 ≤ n ∨ unit = -1074) :
    signFactor sign * exactValue y / 2 ^ unit ≤ n ∨
      (n : ℚ) + 1 ≤ signFactor sign * exactValue y / 2 ^ unit := by
  obtain ⟨k, e, hk, he, hvalue⟩ := exists_int_mul_zpow hy
  have hsigned : signFactor sign * exactValue y = (sign.apply k : ℤ) * 2 ^ e := by
    rw [hvalue, cast_apply, mul_assoc]
  have hk' : |sign.apply k| < 2 ^ 53 := by
    cases sign <;> simpa [Sign.apply] using hk
  have hpos : (0 : ℚ) < 2 ^ unit := by positivity
  rw [hsigned]
  generalize sign.apply k = k at hk'
  rcases le_or_gt unit e with hcoarse | hfine
  · -- a multiple of the unit: a whole number
    obtain ⟨places, rfl⟩ : ∃ places : ℕ, e = unit + places := ⟨(e - unit).toNat, by omega⟩
    have hwhole : (k : ℚ) * 2 ^ (unit + places) / 2 ^ unit = (k * 2 ^ places : ℤ) := by
      rw [zpow_add₀ (by norm_num), zpow_natCast]
      push_cast
      field_simp
    rw [hwhole]
    rcases le_or_gt (k * 2 ^ places) n with hle | hgt
    · left
      exact_mod_cast hle
    · right
      exact_mod_cast hgt
  · -- a finer unit: too small to reach the lower neighbour
    left
    have hn : (2 : ℚ) ^ 52 ≤ n := mod_cast hfull.resolve_right (by omega)
    have hlt : (k : ℚ) < 2 ^ 53 := mod_cast (abs_lt.mp hk').2
    rw [div_le_iff₀ hpos]
    calc (k : ℚ) * 2 ^ e ≤ 2 ^ 53 * 2 ^ e := mul_le_mul_of_nonneg_right hlt.le (by positivity)
      _ = 2 ^ 52 * 2 ^ (e + 1) := by
          rw [zpow_add_one₀ (by norm_num)]
          ring
      _ ≤ n * 2 ^ unit :=
          mul_le_mul hn (zpow_le_zpow_right₀ (by norm_num) hfine) (by positivity) (by positivity)

/-! ### Neighbours -/

/-- **Rounding to a whole number is nearest** among all that do not lie strictly between the two
whole numbers around it; and if another is as near, they are these two. -/
theorem RoundsTo.le_of_outside {t y : ℚ} {n f : ℕ} (h : RoundsTo t n) (hlow : f ≤ t)
    (hhigh : t < f + 1) (hy : y ≤ f ∨ (f : ℚ) + 1 ≤ y) :
    |(n : ℚ) - t| ≤ |y - t| ∧
      (y ≠ n → |y - t| = |(n : ℚ) - t| → Even n ∧ (y = f ∧ n = f + 1 ∨ y = (f + 1 : ℕ) ∧ n = f)) := by
  obtain ⟨hleft, hright⟩ := abs_le.mp h.abs_sub_le_half
  have hcases : n = f ∨ n = f + 1 := by
    have hge : ((f : ℚ)) < (n + 1 : ℕ) := by
      push_cast
      linarith
    have hle : (n : ℚ) < (f + 2 : ℕ) := by
      push_cast
      linarith
    have hge' : f < n + 1 := mod_cast hge
    have hle' : n < f + 2 := mod_cast hle
    omega
  -- equally near means half away on either side, and then the rule for halves applies
  have htie : |(n : ℚ) - t| = 1 / 2 → Even n := fun hhalf =>
    (h.resolve_left (by rw [hhalf]; exact lt_irrefl _)).2
  rcases hcases with rfl | rfl
  · have hn : |(n : ℚ) - t| = t - n := by rw [abs_of_nonpos (by linarith)]; ring
    rcases hy with hy | hy
    · have hdistance : |y - t| = t - y := by rw [abs_of_nonpos (by linarith)]; ring
      rw [hn, hdistance]
      exact ⟨by linarith, fun hne heq => absurd (by linarith) hne⟩
    · have hdistance : |y - t| = y - t := abs_of_nonneg (by linarith)
      rw [hn] at htie
      rw [hn, hdistance]
      refine ⟨by linarith, fun _ heq => ⟨htie (by linarith), .inr ⟨?_, rfl⟩⟩⟩
      push_cast
      linarith
  · push_cast at hleft hright
    have hn : |((f + 1 : ℕ) : ℚ) - t| = f + 1 - t := by
      push_cast
      exact abs_of_nonneg (by linarith)
    rcases hy with hy | hy
    · have hdistance : |y - t| = t - y := by rw [abs_of_nonpos (by linarith)]; ring
      rw [hn] at htie
      rw [hn, hdistance]
      exact ⟨by linarith, fun _ heq => ⟨htie (by linarith), .inl ⟨by linarith, rfl⟩⟩⟩
    · have hdistance : |y - t| = y - t := abs_of_nonneg (by linarith)
      rw [hn, hdistance]
      refine ⟨by linarith, fun hne heq => absurd ?_ hne⟩
      push_cast
      linarith

/-- A normal shape is determined by its number. -/
theorem Normalised.eq_of_mul_zpow_eq {m₁ m₂ : ℕ} {e₁ e₂ : ℤ} (h₁ : Normalised m₁ e₁)
    (h₂ : Normalised m₂ e₂) (h : (m₁ : ℚ) * 2 ^ e₁ = m₂ * 2 ^ e₂) : m₁ = m₂ := by
  rcases lt_trichotomy e₁ e₂ with hlt | rfl | hgt
  · exact absurd h (mul_zpow_lt_of_exponent_lt h₁ h₂ hlt).ne
  · have hcast : (m₁ : ℚ) = m₂ := mul_right_cancel₀ (by positivity) h
    exact_mod_cast hcast
  · exact absurd h (mul_zpow_lt_of_exponent_lt h₂ h₁ hgt).ne'

/-- **The mantissa of a double is even** if its number is, in units of its last place. -/
theorem evenMantissa_iff {x : Float} (hx : x.isFinite = true) {sign : Sign} {n : ℕ} {unit : ℤ}
    (hn : n ≤ 2 ^ 53) (hunit : -1074 ≤ unit) (hfull : 2 ^ 52 ≤ n ∨ unit = -1074)
    (hvalue : exactValue x = signFactor sign * (n * 2 ^ unit)) : EvenMantissa x ↔ Even n := by
  obtain ⟨sign', magnitude, hshape, -⟩ := exists_wellShaped hx
  have hmagnitude : |magnitude| = n * 2 ^ unit := by
    rw [exactValue, hshape.unpackedValue_eq] at hvalue
    have habs := congrArg (|·|) hvalue
    simp only [abs_signFactor_mul] at habs
    rw [habs]
    exact abs_of_nonneg (by positivity)
  simp only [EvenMantissa, Magnitude.ofFloat?]
  generalize x.toModel.unpack = w at hshape
  cases hshape with
  | zero hzero =>
      rw [hzero, abs_zero, eq_comm, mul_eq_zero] at hmagnitude
      have hn : n = 0 := mod_cast hmagnitude.resolve_right (by positivity)
      simp [hn]
  | @finite mantissa exponent hnormal hfinite pos =>
      simp only [Option.some.injEq, exists_eq_left']
      rw [← hfinite, abs_of_nonneg (by positivity)] at hmagnitude
      rcases hn.lt_or_eq with hlt | rfl
      · rw [hnormal.eq_of_mul_zpow_eq ⟨hlt, hunit, hfull⟩ hmagnitude]
      · -- one bit too many: the mantissa is the next power of two down
        have hcarry : (mantissa : ℚ) * 2 ^ exponent = (2 ^ 52 : ℕ) * 2 ^ (unit + 1) := by
          rw [hmagnitude, zpow_add_one₀ (by norm_num)]
          push_cast
          ring
        rw [hnormal.eq_of_mul_zpow_eq ⟨by decide, by omega, .inl le_rfl⟩ hcarry]
        decide

/-- **Where the range ends**, for a number and for what it is rounded to. -/
theorem overflowLimit_le_iff {t : ℚ} {unit : ℤ} {n : ℕ} (h : Scaled t unit)
    (hn : RoundsTo t n) : overflowLimit ≤ t * 2 ^ unit ↔ 2 ^ 1024 ≤ (n : ℚ) * 2 ^ unit := by
  have hlimit : overflowLimit = (2 ^ 54 - 1) * 2 ^ (970 : ℤ) := by
    rw [overflowLimit, sub_mul, one_mul]
    exact congrArg₂ _ (two_pow_mul_zpow 54 970).symm (zpow_natCast 2 970).symm
  have hend : (2 : ℚ) ^ 1024 = 2 ^ 54 * 2 ^ (970 : ℤ) := (two_pow_mul_zpow 54 970).symm
  have hpos : (0 : ℚ) < 2 ^ (970 : ℤ) := by positivity
  obtain ⟨hle, hfull⟩ := h.le_of_roundsTo hn
  rw [hlimit, hend]
  rcases lt_trichotomy unit 971 with hlt | rfl | hgt
  · have hbelow : ∀ a c : ℚ, a ≤ 2 ^ 53 → 2 ^ 53 < c → a * 2 ^ unit < c * 2 ^ (970 : ℤ) := by
      intro a c ha hc
      calc a * 2 ^ unit ≤ 2 ^ 53 * 2 ^ unit := mul_le_mul_of_nonneg_right ha (by positivity)
        _ ≤ 2 ^ 53 * 2 ^ (970 : ℤ) :=
            mul_le_mul_of_nonneg_left (zpow_le_zpow_right₀ (by norm_num) (by omega))
              (by positivity)
        _ < c * 2 ^ (970 : ℤ) := mul_lt_mul_of_pos_right hc hpos
    exact iff_of_false (not_le.mpr (hbelow t _ h.lt.le (by norm_num)))
      (not_le.mpr (hbelow n _ (mod_cast hle) (by norm_num)))
  · -- here the limit is half a unit below the carry out of the mantissa
    have hunit : (2 : ℚ) ^ (971 : ℤ) = 2 ^ (970 : ℤ) * 2 := zpow_add_one₀ (by norm_num) 970
    rw [hunit, ← mul_assoc, mul_right_comm, mul_le_mul_iff_left₀ hpos, ← mul_assoc, mul_right_comm,
      mul_le_mul_iff_left₀ hpos]
    obtain ⟨hleft, hright⟩ := abs_le.mp hn.abs_sub_le_half
    constructor
    · intro hlimit
      by_contra hlt
      have hodd : n = 2 ^ 53 - 1 := by
        have hgt : ((2 ^ 53 - 2 : ℕ) : ℚ) < n := by
          push_cast
          linarith
        have hlt' : (n : ℚ) < (2 ^ 53 : ℕ) := by
          push_cast
          linarith
        have hgt' : 2 ^ 53 - 2 < n := mod_cast hgt
        have hlt'' : n < 2 ^ 53 := mod_cast hlt'
        omega
      rcases hn with hnear | ⟨-, heven⟩
      · have hgt := (abs_lt.mp hnear).1
        rw [hodd] at hgt
        push_cast at hgt
        linarith
      · rw [hodd] at heven
        exact absurd heven (by decide)
    · intro hcarry
      linarith
  · have hunit : (2 : ℚ) ^ (970 : ℤ) * 4 = 2 ^ (972 : ℤ) := by
      rw [show (972 : ℤ) = 970 + 2 by norm_num, zpow_add₀ (by norm_num)]
      norm_num
    have habove : ∀ a c : ℚ, 2 ^ 52 ≤ a → c ≤ 2 ^ 54 → c * 2 ^ (970 : ℤ) ≤ a * 2 ^ unit := by
      intro a c ha hc
      calc c * 2 ^ (970 : ℤ) ≤ 2 ^ 54 * 2 ^ (970 : ℤ) := mul_le_mul_of_nonneg_right hc hpos.le
        _ = 2 ^ 52 * 2 ^ (972 : ℤ) := by
            rw [← hunit]
            ring
        _ ≤ 2 ^ 52 * 2 ^ unit :=
            mul_le_mul_of_nonneg_left (zpow_le_zpow_right₀ (by norm_num) (by omega))
              (by positivity)
        _ ≤ a * 2 ^ unit := mul_le_mul_of_nonneg_right ha (by positivity)
    exact iff_of_true (habove t _ (h.full_or_least.resolve_right (by omega)) (by norm_num))
      (habove n _ (mod_cast hfull.resolve_right (by omega)) (by norm_num))

/-- A distance, measured in units. -/
theorem abs_sub_eq_mul (sign : Sign) (q t : ℚ) (unit : ℤ) :
    |q - signFactor sign * (t * 2 ^ unit)|
      = |signFactor sign * q / 2 ^ unit - t| * 2 ^ unit := by
  have hpos : (0 : ℚ) < 2 ^ unit := by positivity
  have hunits : q - signFactor sign * (t * 2 ^ unit)
      = signFactor sign * ((signFactor sign * q / 2 ^ unit - t) * 2 ^ unit) := by
    rw [sub_mul, div_mul_cancel₀ _ hpos.ne', mul_sub, signFactor_mul_signFactor_mul]
  rw [hunits, abs_signFactor_mul, abs_mul, abs_of_pos hpos]

/-- A number with a sign, measured in units. -/
theorem mul_div_eq_iff (sign : Sign) (q a : ℚ) (unit : ℤ) :
    signFactor sign * q / 2 ^ unit = a ↔ q = signFactor sign * (a * 2 ^ unit) := by
  rw [div_eq_iff (by positivity)]
  constructor
  · intro h
    rw [← h, signFactor_mul_signFactor_mul]
  · intro h
    rw [h, signFactor_mul_signFactor_mul]

theorem overflowLimit_pos : 0 < overflowLimit :=
  sub_pos.mpr (pow_lt_pow_right₀ (by norm_num) (by norm_num))

section Unique

variable (sign : Sign) {t : ℚ} {unit : ℤ} {n : ℕ}

/-- **What a number is rounded to is nearest among the doubles**, and if another is as near,
the two are neighbours and this one is even. -/
theorem RoundsTo.le_of_isFinite (hn : RoundsTo t n) (h : Scaled t unit) {y : Float}
    (hy : y.isFinite = true) :
    |(n : ℚ) - t| ≤ |signFactor sign * exactValue y / 2 ^ unit - t| ∧
      (signFactor sign * exactValue y / 2 ^ unit ≠ n →
        |signFactor sign * exactValue y / 2 ^ unit - t| = |(n : ℚ) - t| →
        Even n ∧ ∃ j : ℕ, signFactor sign * exactValue y / 2 ^ unit = j ∧ j ≤ 2 ^ 53 ∧
          (2 ^ 52 ≤ j ∨ unit = -1074) ∧ (Even n → ¬ Even j)) := by
  have hlow : (⌊t⌋₊ : ℚ) ≤ t := Nat.floor_le h.nonneg
  have hlt : ⌊t⌋₊ < 2 ^ 53 := (Nat.floor_lt h.nonneg).mpr (mod_cast h.lt)
  have hfull : 2 ^ 52 ≤ ⌊t⌋₊ ∨ unit = -1074 :=
    h.full_or_least.imp_left fun hfull => Nat.le_floor (mod_cast hfull)
  obtain ⟨hle, htie⟩ := hn.le_of_outside hlow (Nat.lt_floor_add_one t)
    (le_or_le_of_isFinite hy sign hfull)
  refine ⟨hle, fun hne heq => ?_⟩
  obtain ⟨heven, ⟨hvalue, hcase⟩ | ⟨hvalue, hcase⟩⟩ := htie hne heq
  · refine ⟨heven, _, hvalue, hlt.le, hfull, ?_⟩
    rw [hcase]
    exact fun hsucc => Nat.even_add_one.mp hsucc
  · refine ⟨heven, _, hvalue, hlt, by omega, ?_⟩
    rw [← hcase]
    exact fun hself hsucc => Nat.even_add_one.mp hsucc hself

/-- What a number is rounded to, measured in units. -/
theorem mul_mul_div_cancel (n : ℕ) (unit : ℤ) :
    signFactor sign * (signFactor sign * (n * 2 ^ unit)) / 2 ^ unit = (n : ℚ) :=
  (mul_div_eq_iff sign _ _ unit).mpr rfl

/-- What a number is rounded to is a nearest double … -/
theorem nearest_of_exactValue (h : Scaled t unit) (hn : RoundsTo t n) {x : Float}
    (hrange : (n : ℚ) * 2 ^ unit < 2 ^ 1024) (hfinite : x.isFinite = true)
    (hvalue : exactValue x = signFactor sign * (n * 2 ^ unit)) :
    Nearest (signFactor sign * (t * 2 ^ unit)) x := by
  have hpos : (0 : ℚ) < 2 ^ unit := by positivity
  obtain ⟨hle, hfull⟩ := h.le_of_roundsTo hn
  refine .finite ?_ hfinite ?_ ?_
  · rwa [abs_signFactor_mul, abs_of_nonneg (mul_nonneg h.nonneg hpos.le), ← not_le,
      overflowLimit_le_iff h hn, not_le]
  · intro y hy
    rw [hvalue, abs_sub_eq_mul, abs_sub_eq_mul, mul_mul_div_cancel]
    exact mul_le_mul_of_nonneg_right (hn.le_of_isFinite sign h hy).1 hpos.le
  · intro y hy hne heq
    rw [hvalue, abs_sub_eq_mul, abs_sub_eq_mul, mul_mul_div_cancel,
      mul_right_cancel_iff_of_pos hpos] at heq
    rw [hvalue] at hne
    obtain ⟨heven, -⟩ := (hn.le_of_isFinite sign h hy).2
      (mt (mul_div_eq_iff sign _ _ unit).mp hne) heq
    exact (evenMantissa_iff hfinite hle h.least_le hfull hvalue).mpr heven

/-- … and no other one is. -/
theorem exactValue_of_nearest (h : Scaled t unit) (hn : RoundsTo t n) {x : Float}
    (hrange : (n : ℚ) * 2 ^ unit < 2 ^ 1024) (hfinite : x.isFinite = true)
    (hmin : ∀ y : Float, y.isFinite = true → |exactValue x - signFactor sign * (t * 2 ^ unit)| ≤
      |exactValue y - signFactor sign * (t * 2 ^ unit)|)
    (heven : ∀ y : Float, y.isFinite = true → exactValue y ≠ exactValue x →
      |exactValue y - signFactor sign * (t * 2 ^ unit)| =
        |exactValue x - signFactor sign * (t * 2 ^ unit)| → EvenMantissa x) :
    exactValue x = signFactor sign * (n * 2 ^ unit) := by
  have hpos : (0 : ℚ) < 2 ^ unit := by positivity
  obtain ⟨hle, -⟩ := h.le_of_roundsTo hn
  obtain ⟨y, hy, hvalue⟩ := exists_exactValue_eq sign hle h.least_le hrange
  have hdistance := hmin y hy
  rw [hvalue, abs_sub_eq_mul, abs_sub_eq_mul, mul_mul_div_cancel,
    mul_le_mul_iff_left₀ hpos] at hdistance
  obtain ⟨hge, htie⟩ := hn.le_of_isFinite sign h hfinite
  have heq := le_antisymm hdistance hge
  -- another double as near would be a neighbour, and one of the two is odd
  by_contra hne
  obtain ⟨hneven, j, hj, hjle, hjfull, hparity⟩ :=
    htie (mt (mul_div_eq_iff sign _ _ unit).mp hne) heq
  have hx : exactValue x = signFactor sign * (j * 2 ^ unit) :=
    (mul_div_eq_iff sign _ _ unit).mp hj
  refine hparity hneven ((evenMantissa_iff hfinite hjle h.least_le hjfull hx).mp ?_)
  refine heven y hy ?_ ?_
  · rw [hvalue]
    exact Ne.symm hne
  · rw [hvalue, abs_sub_eq_mul, abs_sub_eq_mul, mul_mul_div_cancel, heq]

/-- **The nearest double by its exact value.**  So there is one, and up to the sign of a zero
there is only one. -/
theorem nearest_iff (h : Scaled t unit) (hn : RoundsTo t n) (x : Float) :
    Nearest (signFactor sign * (t * 2 ^ unit)) x ↔
      ((n : ℚ) * 2 ^ unit < 2 ^ 1024 ∧ x.isFinite = true ∧
          exactValue x = signFactor sign * (n * 2 ^ unit)) ∨
        (2 ^ 1024 ≤ (n : ℚ) * 2 ^ unit ∧ x = signedInfinity sign) := by
  have hnonneg : 0 ≤ t * 2 ^ unit := mul_nonneg h.nonneg (by positivity)
  have hlimit := overflowLimit_le_iff h hn
  constructor
  · intro hnearest
    cases hnearest with
    | finite hrange hfinite hmin heven =>
        rw [abs_signFactor_mul, abs_of_nonneg hnonneg, ← not_le, hlimit, not_le] at hrange
        exact .inl ⟨hrange, hfinite, exactValue_of_nearest sign h hn hrange hfinite hmin heven⟩
    | above hrange hx =>
        cases sign with
        | positive =>
            rw [signFactor, one_mul, hlimit] at hrange
            exact .inr ⟨hrange, hx⟩
        | negative =>
            rw [signFactor, neg_one_mul] at hrange
            linarith [overflowLimit_pos]
    | below hrange hx =>
        cases sign with
        | positive =>
            rw [signFactor, one_mul] at hrange
            linarith [overflowLimit_pos]
        | negative =>
            rw [signFactor, neg_one_mul, neg_le_neg_iff, hlimit] at hrange
            exact .inr ⟨hrange, hx⟩
  · rintro (⟨hrange, hfinite, hvalue⟩ | ⟨hrange, rfl⟩)
    · exact nearest_of_exactValue sign h hn hrange hfinite hvalue
    · rw [← hlimit] at hrange
      cases sign with
      | positive => exact .above (by rwa [signFactor, one_mul]) rfl
      | negative => exact .below (by rwa [signFactor, neg_one_mul, neg_le_neg_iff]) rfl

end Unique

/-- **A double is its own nearest double**, up to the sign of a zero. -/
theorem nearest_exactValue_iff {y : Float} (hy : y.isFinite = true) (x : Float) :
    Nearest (exactValue y) x ↔ x.isFinite = true ∧ exactValue x = exactValue y := by
  obtain ⟨sign, magnitude, hshape, hrange⟩ := exists_wellShaped hy
  obtain ⟨n, unit, hscaled, rfl⟩ := hshape.exists_scaled
  rw [exactValue, hshape.unpackedValue_eq, nearest_iff sign hscaled (.self n)]
  simp only [hrange, true_and, not_le.mpr hrange, false_and, or_false]

end YarnPreview
