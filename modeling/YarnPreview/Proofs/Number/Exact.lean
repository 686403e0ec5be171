import Mathlib
import YarnPreview.Number.Magnitude

/-!
# The exact value of a double

Every finite double is a whole mantissa times a power of two, hence a rational
number.  This module reads that number off the double and shows that the
comparisons of doubles compare exactly these numbers.

## Main definitions

* `exactValue` — the rational number that a finite double is
* `Normalised` — the mantissas and exponents that a double can have

## Main statements

* `compare_unpack` — comparing two finite doubles compares their exact values
* `lt_iff_exactValue`, `le_iff_exactValue` — the two orders in that form

## Why the comparison needs an invariant

Doubles are compared by exponent first and by mantissa only at equal exponents.
That is right only because a mantissa fills its width: one and the same number
with a shifted mantissa would compare differently.  `Normalised` says that it
does, and unpacking a double establishes it.
-/

namespace YarnPreview

open Float.Model (Format UnpackedFloat)
open Float.Model.UnpackedFloat (Sign unpackMantissa unpackExponent)

/-- The rational number that an unpacked double is.  An infinity and a NaN are
no number; their value here is zero and is never looked at. -/
def unpackedValue : UnpackedFloat → ℚ
  | .finite sign mantissa exponent _ => (sign.apply mantissa : ℤ) * (2 : ℚ) ^ exponent
  | _ => 0

/-- **The exact value of a finite double.** -/
def exactValue (x : Float) : ℚ :=
  unpackedValue x.toModel.unpack

/-! ### Normalised mantissas -/

/-- **The shape of a finite double**: at most fifty-three bits of mantissa, no
exponent below the least one, and a mantissa that fills its width unless the
exponent is the least one. -/
structure Normalised (mantissa : Nat) (exponent : Int) : Prop where
  mantissa_lt : mantissa < 2 ^ 53
  least_le : -1074 ≤ exponent
  full_or_least : 2 ^ 52 ≤ mantissa ∨ exponent = -1074

/-- The mantissa and the exponent that unpacking gives are normalised. -/
theorem normalised_of_unpack {bits : BitVec Format.binary64.numBits} {sign : Sign}
    {mantissa : Nat} {exponent : Int} {pos : 0 < mantissa}
    (h : UnpackedFloat.unpack Format.binary64 bits = .finite sign mantissa exponent pos) :
    Normalised mantissa exponent := by
  have hmantissa : (unpackMantissa bits).toNat < 2 ^ 52 := (unpackMantissa bits).isLt
  have hbias : ((Format.binary64.exponentBias : Nat) : Int) = 1023 := rfl
  have hwidth : ((Format.binary64.mantissaBitsWithoutImplicit : Nat) : Int) = 52 := rfl
  simp only [UnpackedFloat.unpack] at h
  split at h
  · split at h <;> cases h
  · split at h
    · next hleast =>
        split at h
        · cases h
        · cases h
          have hexponent : (unpackExponent bits).toNat = 0 := by rw [hleast]; rfl
          exact ⟨by omega, by omega, Or.inr (by omega)⟩
    · next hleast =>
        cases h
        have hexponent : (unpackExponent bits).toNat ≠ 0 := by
          intro hzero
          exact hleast (BitVec.eq_of_toNat_eq hzero)
        -- The implicit leading bit stands above the stored mantissa.
        have hfull : (1#1 ++ unpackMantissa bits).toNat
            = (unpackMantissa bits).toNat + 2 ^ 52 := by
          rw [BitVec.toNat_append, Nat.or_comm, Nat.shiftLeft_eq]
          exact Nat.or_two_pow_eq_add_of_lt hmantissa
        exact ⟨by omega, by omega, Or.inl (by omega)⟩

/-! ### Comparison -/

/-- A normalised number with the smaller exponent is the smaller one: its mantissa
has at most twice the value of the other mantissa, and its power of two at most
half. -/
theorem mul_zpow_lt_of_exponent_lt {m₁ m₂ : Nat} {e₁ e₂ : Int} (h₁ : Normalised m₁ e₁)
    (h₂ : Normalised m₂ e₂) (hlt : e₁ < e₂) :
    (m₁ : ℚ) * 2 ^ e₁ < (m₂ : ℚ) * 2 ^ e₂ := by
  have hfull : 2 ^ 52 ≤ m₂ := by
    rcases h₂.full_or_least with hfull | hleast
    · exact hfull
    · have := h₁.least_le
      omega
  have hmantissa : (m₁ : ℚ) < 2 * m₂ := by
    have := h₁.mantissa_lt
    exact_mod_cast (by omega : m₁ < 2 * m₂)
  calc (m₁ : ℚ) * 2 ^ e₁ < 2 * m₂ * 2 ^ e₁ :=
        mul_lt_mul_of_pos_right hmantissa (by positivity)
    _ = m₂ * 2 ^ (e₁ + 1) := by
        rw [zpow_add_one₀ (by norm_num)]
        ring
    _ ≤ m₂ * 2 ^ e₂ :=
        mul_le_mul_of_nonneg_left (zpow_le_zpow_right₀ (by norm_num) hlt) (by positivity)

/-- **Exponent first, then mantissa** is the order of the numbers. -/
theorem compare_mul_zpow {m₁ m₂ : Nat} {e₁ e₂ : Int} (h₁ : Normalised m₁ e₁)
    (h₂ : Normalised m₂ e₂) :
    (compare e₁ e₂).then (compare m₁ m₂)
      = compare ((m₁ : ℚ) * 2 ^ e₁) ((m₂ : ℚ) * 2 ^ e₂) := by
  rcases lt_trichotomy e₁ e₂ with hlt | rfl | hgt
  · rw [compare_lt_iff_lt.mpr hlt,
      compare_lt_iff_lt.mpr (mul_zpow_lt_of_exponent_lt h₁ h₂ hlt)]
    rfl
  · have hpos : (0 : ℚ) < 2 ^ e₁ := by positivity
    rw [compare_eq_iff_eq.mpr rfl]
    -- At equal exponents the power of two is common to both numbers.
    show compare m₁ m₂ = _
    rcases lt_trichotomy m₁ m₂ with hlt | rfl | hgt
    · rw [compare_lt_iff_lt.mpr hlt, eq_comm, compare_lt_iff_lt]
      exact mul_lt_mul_of_pos_right (by exact_mod_cast hlt) hpos
    · rw [compare_eq_iff_eq.mpr rfl, compare_eq_iff_eq.mpr rfl]
    · rw [compare_gt_iff_gt.mpr hgt, eq_comm, compare_gt_iff_gt]
      exact mul_lt_mul_of_pos_right (by exact_mod_cast hgt) hpos
  · rw [compare_gt_iff_gt.mpr hgt,
      compare_gt_iff_gt.mpr (mul_zpow_lt_of_exponent_lt h₂ h₁ hgt)]
    rfl

/-- Negation turns the order around. -/
theorem compare_neg_neg (a b : ℚ) : compare (-a) (-b) = (compare a b).swap := by
  rcases lt_trichotomy a b with hlt | rfl | hgt
  · rw [compare_lt_iff_lt.mpr hlt, compare_gt_iff_gt.mpr (neg_lt_neg hlt)]
    rfl
  · rw [compare_eq_iff_eq.mpr rfl, compare_eq_iff_eq.mpr rfl]
    rfl
  · rw [compare_gt_iff_gt.mpr hgt, compare_lt_iff_lt.mpr (neg_lt_neg hgt)]
    rfl

/-- The value of a positive finite double is positive. -/
theorem unpackedValue_pos {mantissa : Nat} (exponent : Int) (pos : 0 < mantissa) :
    0 < unpackedValue (.finite .positive mantissa exponent pos) := by
  have hmantissa : (0 : ℚ) < mantissa := by exact_mod_cast pos
  simp only [unpackedValue, Sign.apply, Int.cast_natCast]
  positivity

/-- The negative of a finite double has the negative value. -/
theorem unpackedValue_negative {mantissa : Nat} (exponent : Int) (pos : 0 < mantissa) :
    unpackedValue (.finite .negative mantissa exponent pos)
      = -unpackedValue (.finite .positive mantissa exponent pos) := by
  simp [unpackedValue, Sign.apply]

/-- **Comparing two finite doubles compares their exact values.**  The split
follows the comparison itself: zeros against signs, signs against each other, and
two numbers of one sign by their normalised shapes. -/
theorem compare_unpack {x y : Float} (hx : x.isFinite = true) (hy : y.isFinite = true) :
    x.toModel.unpack.compare y.toModel.unpack
      = some (compare (exactValue x) (exactValue y)) := by
  have hx' : x.toModel.unpack.isFinite = true := hx
  have hy' : y.toModel.unpack.isFinite = true := hy
  unfold exactValue
  cases hu : x.toModel.unpack with
  | notANumber => rw [hu] at hx'; cases hx'
  | infinity sign => rw [hu] at hx'; cases hx'
  | zero sign =>
      cases hv : y.toModel.unpack with
      | notANumber => rw [hv] at hy'; cases hy'
      | infinity sign' => rw [hv] at hy'; cases hy'
      | zero sign' => rfl
      | finite sign' m e pos =>
          have hpos := unpackedValue_pos e pos
          cases sign' with
          | positive => exact congrArg some (compare_lt_iff_lt.mpr hpos).symm
          | negative =>
              rw [unpackedValue_negative]
              exact congrArg some (compare_gt_iff_gt.mpr (neg_lt_zero.mpr hpos)).symm
  | finite sign m e pos =>
      have hpos := unpackedValue_pos e pos
      cases hv : y.toModel.unpack with
      | notANumber => rw [hv] at hy'; cases hy'
      | infinity sign' => rw [hv] at hy'; cases hy'
      | zero sign' =>
          cases sign with
          | positive => exact congrArg some (compare_gt_iff_gt.mpr hpos).symm
          | negative =>
              rw [unpackedValue_negative]
              exact congrArg some (compare_lt_iff_lt.mpr (neg_lt_zero.mpr hpos)).symm
      | finite sign' m' e' pos' =>
          have hpos' := unpackedValue_pos e' pos'
          have hshape := compare_mul_zpow (normalised_of_unpack hu) (normalised_of_unpack hv)
          -- Different signs decide by themselves, whatever the shapes.
          cases sign <;> cases sign'
          case negative.negative =>
            rw [unpackedValue_negative, unpackedValue_negative, compare_neg_neg]
            exact congrArg (some ∘ Ordering.swap) hshape
          case negative.positive =>
            rw [unpackedValue_negative]
            exact congrArg some (compare_lt_iff_lt.mpr (by linarith)).symm
          case positive.negative =>
            rw [unpackedValue_negative]
            exact congrArg some (compare_gt_iff_gt.mpr (by linarith)).symm
          case positive.positive => exact congrArg some hshape

/-- **The strict order of finite doubles is that of their exact values.** -/
theorem lt_iff_exactValue {x y : Float} (hx : x.isFinite = true) (hy : y.isFinite = true) :
    x < y ↔ exactValue x < exactValue y := by
  rw [← compare_lt_iff_lt]
  show decide ((x.toModel.unpack.compare y.toModel.unpack == some .lt) = true) = true ↔ _
  rw [compare_unpack hx hy]
  simp

/-- **The order of finite doubles is that of their exact values.** -/
theorem le_iff_exactValue {x y : Float} (hx : x.isFinite = true) (hy : y.isFinite = true) :
    x ≤ y ↔ exactValue x ≤ exactValue y := by
  rw [← compare_le_iff_le, ne_eq, Ordering.ne_gt_iff_isLE]
  show decide (((x.toModel.unpack.compare y.toModel.unpack).any (·.isLE)) = true) = true ↔ _
  rw [compare_unpack hx hy]
  simp

end YarnPreview
