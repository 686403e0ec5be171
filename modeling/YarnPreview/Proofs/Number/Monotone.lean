import Mathlib
import YarnPreview.Proofs.Number.Operations

/-!
# Rounding keeps the order

Of two numbers the larger one has the larger nearest double, infinities included.  This is
what bounds a computed double by other doubles without a look at how it was rounded.

## Main statements

* `exists_scaled` — every rational number in units of its last place
* `Nearest.exactValue_unique` — two nearest doubles of one number are one number
* `Nearest.isFinite_iff`, `Nearest.isInf_iff`, `Nearest.isNaN_eq_false` — what a rounded result is
* `Nearest.mono` — rounding keeps the order
* `Nearest.exactValue_eq` — what is a double already is not rounded

## The one case that distances do not settle

Two doubles that are nearest in the wrong order are equally near to both numbers, so the
numbers are equal and lie halfway between the doubles.  Then it takes the rule for halves:
one number has one nearest double.
-/

namespace YarnPreview

open Float.Model.UnpackedFloat (Sign)

/-! ### One nearest double -/

/-- **Every number in units of its last place.** -/
theorem exists_scaled (v : ℚ) :
    ∃ (sign : Sign) (t : ℚ) (unit : ℤ), Scaled t unit ∧ v = signFactor sign * (t * 2 ^ unit) := by
  obtain ⟨sign, hsign⟩ : ∃ sign : Sign, v = signFactor sign * |v| := by
    rcases abs_choice v with habs | habs
    · exact ⟨.positive, by rw [habs, signFactor, one_mul]⟩
    · exact ⟨.negative, by rw [habs, signFactor, neg_one_mul, neg_neg]⟩
  rcases eq_or_ne v 0 with rfl | hne
  · exact ⟨sign, 0, -1074, ⟨le_rfl, by norm_num, le_rfl, .inr rfl⟩, by simp⟩
  have hlow : (2 : ℚ) ^ Int.log 2 |v| ≤ |v| :=
    mod_cast Int.zpow_log_le_self one_lt_two (abs_pos.mpr hne)
  have hhigh : |v| < (2 : ℚ) ^ (Int.log 2 |v| + 1) :=
    mod_cast Int.lt_zpow_succ_log_self one_lt_two |v|
  set unit := max (Int.log 2 |v| - 52) (-1074) with hunit
  have hpos : (0 : ℚ) < 2 ^ unit := by positivity
  refine ⟨sign, |v| / 2 ^ unit, unit, ⟨by positivity, ?_, le_max_right _ _, ?_⟩, ?_⟩
  · rw [div_lt_iff₀ hpos, ← zpow_natCast, ← zpow_add₀ (by norm_num)]
    refine hhigh.trans_le (zpow_le_zpow_right₀ (by norm_num) ?_)
    push_cast
    omega
  · by_cases hleast : unit = -1074
    · exact .inr hleast
    · left
      have hlog : ((52 : ℕ) : ℤ) + unit = Int.log 2 |v| := by
        push_cast
        omega
      rwa [le_div_iff₀ hpos, ← zpow_natCast, ← zpow_add₀ (by norm_num), hlog]
  · rwa [div_mul_cancel₀ _ hpos.ne']

/-- Two nearest doubles of one number are one number. -/
theorem Nearest.exactValue_unique {v : ℚ} {x y : Float} (hx : Nearest v x) (hy : Nearest v y)
    (hxfinite : x.isFinite = true) (hyfinite : y.isFinite = true) :
    exactValue x = exactValue y := by
  obtain ⟨sign, t, unit, hscaled, rfl⟩ := exists_scaled v
  obtain ⟨n, hn⟩ := RoundsTo.exists_of_nonneg hscaled.nonneg
  have hvalue : ∀ {z : Float}, Nearest (signFactor sign * (t * 2 ^ unit)) z →
      z.isFinite = true → exactValue z = signFactor sign * (n * 2 ^ unit) := by
    intro z hz hfinite
    rcases (nearest_iff sign hscaled hn z).mp hz with ⟨-, -, hvalue⟩ | ⟨-, rfl⟩
    · exact hvalue
    · cases sign <;> exact absurd hfinite (by decide)
  rw [hvalue hx hxfinite, hvalue hy hyfinite]

/-- The value of the literal zero. -/
theorem exactValue_zero : exactValue 0.0 = 0 := rfl

/-! ### In range or not -/

/-- A double is nearest to itself. -/
theorem nearest_self {x : Float} (hx : x.isFinite = true) : Nearest (exactValue x) x :=
  (nearest_exactValue_iff hx x).mpr ⟨hx, rfl⟩

namespace Nearest

variable {v w : ℚ} {x y : Float}

/-- **A rounded result is finite** exactly when the number is in range. -/
theorem isFinite_iff (h : Nearest v x) : x.isFinite = true ↔ |v| < overflowLimit := by
  cases h with
  | finite hrange hfinite _ _ => exact iff_of_true hfinite hrange
  | above hrange hx =>
      rw [hx]
      exact iff_of_false (by decide) (not_lt.mpr (hrange.trans (le_abs_self v)))
  | below hrange hx =>
      rw [hx]
      exact iff_of_false (by decide) (not_lt.mpr ((le_neg_of_le_neg hrange).trans (neg_le_abs v)))

/-- A rounded result is a number or an infinity. -/
theorem isNaN_eq_false (h : Nearest v x) : x.isNaN = false := by
  cases h with
  | finite _ hfinite _ _ =>
      have hfinite' : x.toModel.unpack.isFinite = true := hfinite
      show x.toModel.unpack.isNaN = false
      cases hu : x.toModel.unpack with
      | notANumber =>
          rw [hu] at hfinite'
          cases hfinite'
      | _ => rfl
  | above _ hx => exact hx ▸ rfl
  | below _ hx => exact hx ▸ rfl

/-- **A rounded result is infinite** exactly when the number is out of range. -/
theorem isInf_iff (h : Nearest v x) : x.isInf = true ↔ overflowLimit ≤ |v| := by
  rw [← not_lt, ← h.isFinite_iff]
  have hnumber : x.toModel.unpack.isNaN = false := h.isNaN_eq_false
  show x.toModel.unpack.isInf = true ↔ ¬ x.toModel.unpack.isFinite = true
  cases hu : x.toModel.unpack with
  | notANumber =>
      rw [hu] at hnumber
      cases hnumber
  | infinity sign => exact iff_of_true rfl Bool.false_ne_true
  | zero sign => exact iff_of_false Bool.false_ne_true (not_not.mpr rfl)
  | finite sign mantissa exponent pos => exact iff_of_false Bool.false_ne_true (not_not.mpr rfl)

end Nearest

/-- The exact value of a finite double is in range. -/
theorem abs_exactValue_lt {x : Float} (hx : x.isFinite = true) : |exactValue x| < overflowLimit :=
  (nearest_self hx).isFinite_iff.mp hx

/-! ### The order -/

/-- Every number is at most the infinity above … -/
theorem le_infinite {x : Float} (hx : x.isNaN = false) : x ≤ infinite false := by
  have hnumber : x.toModel.unpack.isNaN = false := hx
  have hinfinite : (infinite false).toModel.unpack = .infinity .positive := rfl
  show decide (((x.toModel.unpack.compare (infinite false).toModel.unpack).any (·.isLE)) = true)
    = true
  rw [hinfinite]
  cases hu : x.toModel.unpack with
  | notANumber =>
      rw [hu] at hnumber
      cases hnumber
  | infinity sign => cases sign <;> rfl
  | zero sign => rfl
  | finite sign mantissa exponent pos => rfl

/-- … and at least the infinity below. -/
theorem infinite_le {x : Float} (hx : x.isNaN = false) : infinite true ≤ x := by
  have hnumber : x.toModel.unpack.isNaN = false := hx
  have hinfinite : (infinite true).toModel.unpack = .infinity .negative := rfl
  show decide ((((infinite true).toModel.unpack.compare x.toModel.unpack).any (·.isLE)) = true)
    = true
  rw [hinfinite]
  cases hu : x.toModel.unpack with
  | notANumber =>
      rw [hu] at hnumber
      cases hnumber
  | infinity sign => cases sign <;> rfl
  | zero sign => rfl
  | finite sign mantissa exponent pos => rfl

namespace Nearest

variable {v w : ℚ} {x y : Float}

/-- A number that is no farther from the larger of two is at least halfway to it. -/
theorem half_le_of_abs_le {v a b : ℚ} (hlt : b < a) (h : |a - v| ≤ |b - v|) : (a + b) / 2 ≤ v := by
  by_contra hless
  have hnear : |b - v| < a - v := abs_sub_lt_iff.mpr ⟨by linarith, by linarith⟩
  have hfar : a - v ≤ |a - v| := le_abs_self _
  linarith

/-- **Rounding keeps the order.** -/
theorem mono (hx : Nearest v x) (hy : Nearest w y) (h : v ≤ w) : x ≤ y := by
  have hxnumber := hx.isNaN_eq_false
  have hynumber := hy.isNaN_eq_false
  cases hx with
  | below _ hxvalue => exact hxvalue ▸ infinite_le hynumber
  | above hxrange hxvalue =>
      have hyvalue : y = infinite false := by
        cases hy with
        | above _ hyvalue => exact hyvalue
        | finite hyrange _ _ _ =>
            have := (abs_lt.mp hyrange).2
            linarith
        | below hyrange _ => linarith [overflowLimit_pos]
      exact hyvalue ▸ le_infinite hxnumber
  | finite hxrange hxfinite hxnearest hxeven =>
      cases hy with
      | above _ hyvalue => exact hyvalue ▸ le_infinite hxnumber
      | below hyrange _ =>
          have := (abs_lt.mp hxrange).1
          linarith
      | finite hyrange hyfinite hynearest hyeven =>
          rw [le_iff_exactValue hxfinite hyfinite]
          by_contra hgt
          -- both numbers lie halfway between the two doubles, so they are one number
          have hlow := half_le_of_abs_le (not_le.mp hgt) (hxnearest y hyfinite)
          have hhigh : w ≤ (exactValue x + exactValue y) / 2 := by
            have hneg := half_le_of_abs_le (neg_lt_neg (not_le.mp hgt)) (v := -w) (by
              rw [neg_sub_neg, neg_sub_neg, abs_sub_comm w, abs_sub_comm w]
              exact hynearest x hxfinite)
            linarith
          obtain rfl : v = w := by linarith
          exact hgt (exactValue_unique (.finite hxrange hxfinite hxnearest hxeven)
            (.finite hyrange hyfinite hynearest hyeven) hxfinite hyfinite).le

/-- **What is a double already is not rounded**: a whole number of units with at most
fifty-three bits. -/
theorem exactValue_eq {n : ℕ} {unit : ℤ} (h : Nearest (n * 2 ^ unit) x) (hn : n ≤ 2 ^ 53)
    (hunit : -1074 ≤ unit) (hrange : (n : ℚ) * 2 ^ unit < 2 ^ 1024) :
    x.isFinite = true ∧ exactValue x = n * 2 ^ unit := by
  obtain ⟨y, hy, hvalue⟩ := exists_exactValue_eq .positive hn hunit hrange
  rw [signFactor, one_mul] at hvalue
  rwa [← hvalue, nearest_exactValue_iff hy, hvalue] at h

end Nearest

end YarnPreview
