import Mathlib
import YarnPreview.Proofs.Number.Exact
import YarnPreview.Proofs.Number.Sign

/-!
# Rounding, bit by bit

A result that does not fit into fifty-three bits is shifted to the right until it does, and two
extra bits remember what was shifted out.  This module says what these two bits know about the
exact result, and that this is enough to round it.

## Main definitions

* `RoundsTo` — the nearest whole number, the even one of two that are equally near
* `Residue` — a mantissa with its two extra bits, and the number they stand for
* `WellShaped` — an unpacked double in normal shape, with its sign and its magnitude
* `CorrectlyRounded` — a magnitude rounded in units of its last place

## Main statements

* `Residue.roundsTo` — the two bits are enough to round
* `WellShaped.unpack_pack_of_lt`, `WellShaped.unpack_pack_of_le` — packing keeps what is in
  range, and all else becomes an infinity
* `correctlyRounded_round` — a mantissa with any exponent is correctly rounded
-/

namespace YarnPreview

open Float.Model (Format UnpackedFloat totalExponent)
open Float.Model.UnpackedFloat (Sign Accuracy ExtendedMantissa packComponents roundWithAccuracy
  shiftToTargetExponent shiftToExponent)

/-! ### Halves to even -/

/-- **The nearest whole number**, the even one of two that are equally near. -/
def RoundsTo (t : ℚ) (n : ℕ) : Prop :=
  |(n : ℚ) - t| < 1 / 2 ∨ |(n : ℚ) - t| = 1 / 2 ∧ Even n

namespace RoundsTo

variable {t : ℚ} {m n : ℕ}

theorem abs_sub_le_half (h : RoundsTo t n) : |(n : ℚ) - t| ≤ 1 / 2 :=
  h.elim le_of_lt fun h => h.1.le

/-- There is only one. -/
theorem unique (hm : RoundsTo t m) (hn : RoundsTo t n) : m = n := by
  by_contra hne
  have hdistance : |(m : ℚ) - n| ≤ |(m : ℚ) - t| + |(n : ℚ) - t| := by
    rw [abs_sub_comm (n : ℚ)]
    exact abs_sub_le _ _ _
  have hone : (1 : ℚ) ≤ |(m : ℚ) - n| := by
    have hint : (1 : ℤ) ≤ |(m : ℤ) - n| := Int.one_le_abs (sub_ne_zero.mpr (mod_cast hne))
    exact_mod_cast hint
  have hm' := hm.abs_sub_le_half
  have hn' := hn.abs_sub_le_half
  -- so both are half away, on either side, and both are even
  obtain ⟨a, rfl⟩ := (hm.resolve_left (by linarith)).2
  obtain ⟨b, rfl⟩ := (hn.resolve_left (by linarith)).2
  have hle : |((a + a : ℕ) : ℤ) - (b + b : ℕ)| ≤ 1 := by
    have : |((a + a : ℕ) : ℚ) - (b + b : ℕ)| ≤ 1 := by linarith
    exact_mod_cast this
  rw [abs_le] at hle
  omega

/-- There is one. -/
theorem exists_of_nonneg (h : 0 ≤ t) : ∃ n, RoundsTo t n := by
  have hlow := Nat.floor_le h
  have hhigh := Nat.lt_floor_add_one t
  rcases lt_trichotomy t (⌊t⌋₊ + 1 / 2) with hlt | heq | hgt
  · exact ⟨⌊t⌋₊, .inl (abs_lt.mpr ⟨by linarith, by linarith⟩)⟩
  · rcases Nat.even_or_odd ⌊t⌋₊ with heven | hodd
    · exact ⟨⌊t⌋₊, .inr ⟨(abs_eq (by norm_num)).mpr (.inr (by linarith)), heven⟩⟩
    · refine ⟨⌊t⌋₊ + 1, .inr ⟨(abs_eq (by norm_num)).mpr (.inl ?_), hodd.add_one⟩⟩
      push_cast
      linarith
  · refine ⟨⌊t⌋₊ + 1, .inl (abs_lt.mpr ?_)⟩
    push_cast
    constructor <;> linarith

/-- A whole number is rounded to itself. -/
theorem self (n : ℕ) : RoundsTo n n := by
  left
  rw [sub_self, abs_zero]
  norm_num

end RoundsTo

/-! ### The two extra bits -/

/-- **A mantissa with its two extra bits** and the number they stand for: a whole number, a
half, or a number strictly between two of these. -/
inductive Residue : ExtendedMantissa → ℚ → Prop
  | whole (mantissa : ℕ) : Residue ⟨mantissa, false, false⟩ mantissa
  | low {mantissa : ℕ} {t : ℚ} (hlow : mantissa < t) (hhigh : t < mantissa + 1 / 2) :
      Residue ⟨mantissa, false, true⟩ t
  | half (mantissa : ℕ) : Residue ⟨mantissa, true, false⟩ (mantissa + 1 / 2)
  | high {mantissa : ℕ} {t : ℚ} (hlow : mantissa + 1 / 2 < t) (hhigh : t < mantissa + 1) :
      Residue ⟨mantissa, true, true⟩ t

namespace Residue

variable {em : ExtendedMantissa} {t : ℚ}

theorem exact (mantissa : ℕ) :
    Residue (.ofMantissaAndAccuracy mantissa .exact) mantissa :=
  .whole mantissa

/-- The mantissa is the whole part. -/
theorem bounds (h : Residue em t) : (em.mantissa : ℚ) ≤ t ∧ t < em.mantissa + 1 := by
  cases h with
  | whole mantissa => exact ⟨le_refl _, by linarith⟩
  | low hlow hhigh => exact ⟨hlow.le, by linarith⟩
  | half mantissa => constructor <;> dsimp only <;> linarith
  | high hlow hhigh => exact ⟨by dsimp only; linarith, hhigh⟩

/-- **The two bits are enough to round.** -/
theorem roundsTo (h : Residue em t) : RoundsTo t em.roundedMantissa := by
  cases h with
  | whole mantissa =>
      left
      show |(mantissa : ℚ) - mantissa| < 1 / 2
      norm_num
  | @low mantissa t hlow hhigh =>
      left
      show |(mantissa : ℚ) - t| < 1 / 2
      rw [abs_lt]
      constructor <;> linarith
  | half mantissa =>
      right
      show |((mantissa + mantissa % 2 : ℕ) : ℚ) - (mantissa + 1 / 2)| = 1 / 2 ∧
        Even (mantissa + mantissa % 2)
      rcases Nat.mod_two_eq_zero_or_one mantissa with hparity | hparity <;> rw [hparity]
      · refine ⟨?_, Nat.even_iff.mpr (by omega)⟩
        rw [abs_eq (by norm_num)]
        right
        push_cast
        ring
      · refine ⟨?_, Nat.even_iff.mpr (by omega)⟩
        rw [abs_eq (by norm_num)]
        left
        push_cast
        ring
  | @high mantissa t hlow hhigh =>
      left
      show |((mantissa + 1 : ℕ) : ℚ) - t| < 1 / 2
      rw [abs_lt]
      push_cast
      constructor <;> linarith

/-- **A shift by one place** halves the number.  The lowest bit of the mantissa becomes the
first extra bit, and the other remembers whether anything was left below it. -/
theorem shiftRightOne (h : Residue em t) : Residue em.shiftRightOne (t / 2) := by
  obtain ⟨mantissa, roundBit, stickyBit⟩ := em
  obtain ⟨k, rfl | rfl⟩ := Nat.even_or_odd' mantissa
  · have hshift : (ExtendedMantissa.mk (2 * k) roundBit stickyBit).shiftRightOne
        = ⟨k, false, roundBit || stickyBit⟩ := by
      simp [ExtendedMantissa.shiftRightOne]
    rw [hshift]
    cases h with
    | whole =>
        have hhalf : ((2 * k : ℕ) : ℚ) / 2 = k := by
          push_cast
          ring
        rw [hhalf]
        exact .whole k
    | low hlow hhigh =>
        push_cast at hlow hhigh
        exact .low (by linarith) (by linarith)
    | half =>
        push_cast
        exact .low (by linarith) (by linarith)
    | high hlow hhigh =>
        push_cast at hlow hhigh
        exact .low (by linarith) (by linarith)
  · have hshift : (ExtendedMantissa.mk (2 * k + 1) roundBit stickyBit).shiftRightOne
        = ⟨k, true, roundBit || stickyBit⟩ := by
      simp [ExtendedMantissa.shiftRightOne]
      omega
    rw [hshift]
    cases h with
    | whole =>
        have hhalf : ((2 * k + 1 : ℕ) : ℚ) / 2 = k + 1 / 2 := by
          push_cast
          ring
        rw [hhalf]
        exact .half k
    | low hlow hhigh =>
        push_cast at hlow hhigh
        exact .high (by linarith) (by linarith)
    | half =>
        push_cast
        exact .high (by linarith) (by linarith)
    | high hlow hhigh =>
        push_cast at hlow hhigh
        exact .high (by linarith) (by linarith)

/-- A shift by several places divides by a power of two. -/
theorem shiftRight (h : Residue em t) (places : ℕ) : Residue (em >>> places) (t / 2 ^ places) := by
  show Residue (places.repeat ExtendedMantissa.shiftRightOne em) _
  induction places with
  | zero => simpa [Nat.repeat] using h
  | succ places ih =>
      rw [Nat.repeat, pow_succ, ← div_div]
      exact ih.shiftRightOne

end Residue

/-! ### Shapes -/

/-- **An unpacked double in normal shape**, with its sign and its magnitude. -/
inductive WellShaped (sign : Sign) (magnitude : ℚ) : UnpackedFloat → Prop
  | zero (h : magnitude = 0) : WellShaped sign magnitude (.zero sign)
  | finite {mantissa : ℕ} {exponent : ℤ} (hshape : Normalised mantissa exponent)
      (h : (mantissa : ℚ) * 2 ^ exponent = magnitude) (pos : 0 < mantissa) :
      WellShaped sign magnitude (.finite sign mantissa exponent pos)

/-- The exponent that a mantissa is shifted to. -/
theorem targetExponent_eq (mantissa : ℕ) (exponent : ℤ) :
    Format.binary64.targetExponent (totalExponent mantissa exponent)
      = max (mantissa.log2 + exponent - 52) (-1074) := by
  show max ((mantissa.log2 : ℤ) + 1 + exponent - 53) (-1074) = _
  congr 1
  ring

/-- A mantissa that fills its width has fifty-three bits. -/
theorem log2_of_full {mantissa : ℕ} (hlow : 2 ^ 52 ≤ mantissa) (hhigh : mantissa < 2 ^ 53) :
    mantissa.log2 = 52 :=
  (Nat.log2_eq_iff (by omega)).mpr ⟨hlow, hhigh⟩

section Packing

variable {sign : Sign}

/-- A stored exponent that is neither the least nor the greatest, with its mantissa. -/
theorem unpack_packComponents_normal {biased mantissa : ℕ} (hlow : 0 < biased)
    (hhigh : biased < 2047) (pos : 0 < 2 ^ 52 + mantissa % 2 ^ 52) :
    UnpackedFloat.unpack Format.binary64
        (packComponents Format.binary64 sign (BitVec.ofNat _ biased) (BitVec.ofNat _ mantissa))
      = .finite sign (2 ^ 52 + mantissa % 2 ^ 52) (biased - 1075) pos := by
  have hnat : (BitVec.ofNat 11 biased).toNat = biased := by
    rw [BitVec.toNat_ofNat]
    exact Nat.mod_eq_of_lt (by omega)
  have hne : ∀ n : ℕ, n < 2 ^ 11 → biased ≠ n → BitVec.ofNat 11 biased ≠ BitVec.ofNat 11 n := by
    intro n hn hne h
    have := congrArg BitVec.toNat h
    rw [hnat, BitVec.toNat_ofNat, Nat.mod_eq_of_lt hn] at this
    exact hne this
  have hgreatest : BitVec.ofNat 11 biased ≠ -1#11 := hne 2047 (by omega) (by omega)
  have hfull : (1#1 ++ BitVec.ofNat 52 mantissa).toNat = 2 ^ 52 + mantissa % 2 ^ 52 := by
    rw [toNat_append_eq_add, BitVec.toNat_ofNat]
    rfl
  simp only [UnpackedFloat.unpack, UnpackedFloat.unpackExponent_packComponents,
    UnpackedFloat.unpackMantissa_packComponents, unpackSign_packComponents]
  rw [if_neg hgreatest, if_neg (hne 0 (by omega) (by omega))]
  simp only [UnpackedFloat.finite.injEq, true_and]
  refine ⟨hfull, ?_⟩
  rw [hnat]
  rfl

/-- The least stored exponent, with a mantissa that is not zero. -/
theorem unpack_packComponents_least {mantissa : ℕ} (pos : 0 < mantissa)
    (hlt : mantissa < 2 ^ 52) :
    UnpackedFloat.unpack Format.binary64
        (packComponents Format.binary64 sign 0#_ (BitVec.ofNat _ mantissa))
      = .finite sign mantissa (-1074) pos := by
  have hnat : (BitVec.ofNat 52 mantissa).toNat = mantissa := by
    rw [BitVec.toNat_ofNat]
    exact Nat.mod_eq_of_lt hlt
  have hne : BitVec.ofNat 52 mantissa ≠ 0#52 := by
    intro h
    rw [h] at hnat
    exact pos.ne hnat
  simp only [UnpackedFloat.unpack, UnpackedFloat.unpackExponent_packComponents,
    UnpackedFloat.unpackMantissa_packComponents, unpackSign_packComponents]
  rw [if_neg (by decide), if_pos trivial, dif_neg hne]
  simp only [UnpackedFloat.finite.injEq, true_and]
  exact ⟨hnat, rfl⟩

/-- Packing keeps a mantissa in normal shape whose exponent is in range … -/
theorem unpack_pack_of_normalised {mantissa : ℕ} {exponent : ℤ} (h : Normalised mantissa exponent)
    (pos : 0 < mantissa) (hrange : exponent ≤ 971) :
    (Float.Model.pack (.finite sign mantissa exponent pos)).unpack
      = .finite sign mantissa exponent pos := by
  obtain ⟨hlt, hleast, hfull⟩ := h
  have hbiased : (exponent + (Format.binary64.exponentBias : ℕ)
      + (Format.binary64.mantissaBitsWithoutImplicit : ℕ)).toNat = (exponent + 1075).toNat := by
    show (exponent + 1023 + 52).toNat = _
    omega
  show UnpackedFloat.unpack Format.binary64 (UnpackedFloat.pack Format.binary64 _) = _
  simp only [UnpackedFloat.pack]
  rw [hbiased, if_neg (show ¬ 2 ^ 11 ≤ (exponent + 1075).toNat + 1 by omega)]
  by_cases hwidth : 2 ^ 52 ≤ mantissa
  · -- The leading bit is not stored; what is stored is the rest.
    have hmantissa : 2 ^ 52 + mantissa % 2 ^ 52 = mantissa := by omega
    have hlog : mantissa.log2 + 1 = Format.binary64.mantissaBits := by
      rw [log2_of_full hwidth hlt]
      rfl
    rw [if_pos hlog, unpack_packComponents_normal (by omega) (by omega) (by omega)]
    simp only [UnpackedFloat.finite.injEq, true_and]
    exact ⟨hmantissa, by omega⟩
  · have hexponent : exponent = -1074 := hfull.resolve_left hwidth
    have hlog : mantissa.log2 + 1 ≠ Format.binary64.mantissaBits := by
      have hlt : mantissa.log2 < 52 := (Nat.log2_lt pos.ne').mpr (by omega)
      show mantissa.log2 + 1 ≠ 53
      omega
    rw [if_neg hlog, unpack_packComponents_least pos (by omega)]
    simp only [hexponent]

/-- … and makes it an infinity if it is not. -/
theorem unpack_pack_of_overflow {mantissa : ℕ} {exponent : ℤ} (pos : 0 < mantissa)
    (hrange : 971 < exponent) :
    (Float.Model.pack (.finite sign mantissa exponent pos)).unpack = .infinity sign := by
  have hbiased : (exponent + (Format.binary64.exponentBias : ℕ)
      + (Format.binary64.mantissaBitsWithoutImplicit : ℕ)).toNat = (exponent + 1075).toNat := by
    show (exponent + 1023 + 52).toNat = _
    omega
  show UnpackedFloat.unpack Format.binary64 (UnpackedFloat.pack Format.binary64 _) = _
  simp only [UnpackedFloat.pack]
  rw [hbiased, if_pos (show 2 ^ 11 ≤ (exponent + 1075).toNat + 1 by omega)]
  cases sign <;> rfl

variable {magnitude : ℚ} {w : UnpackedFloat}

/-- Powers of two with exponents of either kind. -/
theorem two_pow_mul_zpow (m n : ℕ) : (2 : ℚ) ^ m * 2 ^ (n : ℤ) = 2 ^ (m + n) := by
  rw [zpow_natCast, pow_add]

/-- The exponents in range are those of the numbers in range. -/
theorem Normalised.exponent_le_iff {mantissa : ℕ} {exponent : ℤ}
    (h : Normalised mantissa exponent) :
    exponent ≤ 971 ↔ (mantissa : ℚ) * 2 ^ exponent < 2 ^ 1024 := by
  constructor
  · intro hle
    calc (mantissa : ℚ) * 2 ^ exponent < 2 ^ 53 * 2 ^ exponent :=
          mul_lt_mul_of_pos_right (mod_cast h.mantissa_lt) (by positivity)
      _ ≤ 2 ^ 53 * 2 ^ (971 : ℤ) :=
          mul_le_mul_of_nonneg_left (zpow_le_zpow_right₀ (by norm_num) hle) (by positivity)
      _ = 2 ^ 1024 := two_pow_mul_zpow 53 971
  · intro hlt
    by_contra hgt
    have hfull : 2 ^ 52 ≤ mantissa := h.full_or_least.resolve_right (by omega)
    have hge : (2 : ℚ) ^ 1024 ≤ mantissa * 2 ^ exponent := by
      calc (2 : ℚ) ^ 1024 = 2 ^ 52 * 2 ^ (972 : ℤ) := (two_pow_mul_zpow 52 972).symm
        _ ≤ 2 ^ 52 * 2 ^ exponent :=
            mul_le_mul_of_nonneg_left (zpow_le_zpow_right₀ (by norm_num) (by omega))
              (by positivity)
        _ ≤ mantissa * 2 ^ exponent :=
            mul_le_mul_of_nonneg_right (mod_cast hfull) (by positivity)
    exact absurd hlt (not_lt.mpr hge)

/-- **Packing keeps what is in range** … -/
theorem WellShaped.unpack_pack_of_lt (h : WellShaped sign magnitude w)
    (hrange : magnitude < 2 ^ 1024) : (Float.Model.pack w).unpack = w := by
  cases h with
  | zero _ => cases sign <;> rfl
  | finite hshape hmagnitude pos =>
      rw [← hmagnitude, ← hshape.exponent_le_iff] at hrange
      exact unpack_pack_of_normalised hshape pos hrange

/-- … **and makes an infinity of all else**. -/
theorem WellShaped.unpack_pack_of_le (h : WellShaped sign magnitude w)
    (hrange : 2 ^ 1024 ≤ magnitude) : (Float.Model.pack w).unpack = .infinity sign := by
  cases h with
  | zero hzero =>
      rw [hzero] at hrange
      exact absurd hrange (by norm_num)
  | finite hshape hmagnitude pos =>
      rw [← hmagnitude, ← not_lt, ← hshape.exponent_le_iff, not_le] at hrange
      exact unpack_pack_of_overflow pos hrange

end Packing

/-! ### Rounded results -/

/-- **A number in units of its last place**: fewer than fifty-three bits only at the least
exponent. -/
structure Scaled (t : ℚ) (unit : ℤ) : Prop where
  nonneg : 0 ≤ t
  lt : t < 2 ^ 53
  least_le : -1074 ≤ unit
  full_or_least : 2 ^ 52 ≤ t ∨ unit = -1074

/-- Rounding a number in units of its last place gives at most one bit more. -/
theorem Scaled.le_of_roundsTo {t : ℚ} {unit : ℤ} {n : ℕ} (h : Scaled t unit)
    (hn : RoundsTo t n) : n ≤ 2 ^ 53 ∧ (2 ^ 52 ≤ n ∨ unit = -1074) := by
  obtain ⟨hlow, hhigh⟩ := abs_le.mp hn.abs_sub_le_half
  have hlt := h.lt
  constructor
  · have hle : (n : ℚ) < (2 ^ 53 + 1 : ℕ) := by
      push_cast
      linarith
    exact Nat.lt_succ_iff.mp (mod_cast hle)
  · refine h.full_or_least.imp_left fun hfull => ?_
    have hge : ((2 ^ 52 - 1 : ℕ) : ℚ) < n := by
      push_cast
      linarith
    have hnat : 2 ^ 52 - 1 < n := mod_cast hge
    omega

/-- **A carry out of the mantissa is shifted back**: the mantissa ends up in normal shape, and
with its exponent it is the number that it was. -/
theorem shiftToTargetExponent_carry {n : ℕ} {unit : ℤ} (hle : n ≤ 2 ^ 53) (hunit : -1074 ≤ unit)
    (hfull : 2 ^ 52 ≤ n ∨ unit = -1074) :
    Normalised (shiftToTargetExponent Format.binary64 n unit .exact).1.mantissa
        (shiftToTargetExponent Format.binary64 n unit .exact).2 ∧
      ((shiftToTargetExponent Format.binary64 n unit .exact).1.mantissa : ℚ)
        * 2 ^ (shiftToTargetExponent Format.binary64 n unit .exact).2 = n * 2 ^ unit := by
  simp only [shiftToTargetExponent, shiftToExponent, targetExponent_eq]
  rcases hle.lt_or_eq with hlt | rfl
  · have hlog : n.log2 ≤ 52 := by
      rcases Nat.eq_zero_or_pos n with rfl | hpos
      · decide
      · exact Nat.lt_succ_iff.mp ((Nat.log2_lt hpos.ne').mpr hlt)
    have hplaces : (max ((n.log2 : ℤ) + unit - 52) (-1074) - unit).toNat = 0 := by omega
    rw [hplaces]
    simp only [Nat.cast_zero, add_zero]
    exact ⟨⟨hlt, hunit, hfull⟩, rfl⟩
  · have hplaces : (max (((2 ^ 53 : ℕ).log2 : ℤ) + unit - 52) (-1074) - unit).toNat = 1 := by
      rw [Nat.log2_two_pow]
      omega
    rw [hplaces]
    refine ⟨⟨by decide, by omega, Or.inl (by decide)⟩, ?_⟩
    show ((2 ^ 52 : ℕ) : ℚ) * 2 ^ (unit + 1) = _
    rw [zpow_add_one₀ (by norm_num)]
    push_cast
    ring

/-- A mantissa with its accuracy, in units of its last place.  A mantissa of zero has its last
place at the least exponent. -/
theorem Residue.scaled {mantissa : ℕ} {accuracy : Accuracy} {t : ℚ}
    (h : Residue (.ofMantissaAndAccuracy mantissa accuracy) t) {exponent unit : ℤ} {places : ℕ}
    (hpos : 0 < mantissa ∨ exponent ≤ -1074)
    (hunit : unit = max ((mantissa.log2 : ℤ) + exponent - 52) (-1074))
    (hplaces : exponent + places = unit) : Scaled (t / 2 ^ places) unit := by
  have hself : (ExtendedMantissa.ofMantissaAndAccuracy mantissa accuracy).mantissa
      = mantissa := by
    rcases accuracy with _ | _ | _ | _ <;> rfl
  obtain ⟨hlow, hhigh⟩ := h.bounds
  rw [hself] at hlow hhigh
  have hlt : t < 2 ^ (mantissa.log2 + 1) := by
    have hnat : ((mantissa + 1 : ℕ) : ℚ) ≤ (2 ^ (mantissa.log2 + 1) : ℕ) :=
      mod_cast Nat.lt_log2_self
    push_cast at hnat
    linarith
  have hpower : (0 : ℚ) < 2 ^ places := by positivity
  refine ⟨div_nonneg (le_trans (by positivity) hlow) hpower.le, ?_, by omega, ?_⟩
  · rw [div_lt_iff₀ hpower, ← pow_add]
    exact hlt.trans_le (pow_le_pow_right₀ (by norm_num) (by omega))
  · by_cases hleast : unit = -1074
    · exact Or.inr hleast
    · left
      have hwidth : 52 + places = mantissa.log2 := by omega
      have hne : mantissa ≠ 0 := by
        rintro rfl
        rw [Nat.log2_zero] at hwidth
        omega
      have hge : (2 : ℚ) ^ mantissa.log2 ≤ mantissa := mod_cast Nat.log2_self_le hne
      rw [le_div_iff₀ hpower, ← pow_add, hwidth]
      exact hge.trans hlow

/-- **A correctly rounded result**: a magnitude in units of its last place, rounded there. -/
inductive CorrectlyRounded (sign : Sign) (magnitude : ℚ) (w : UnpackedFloat) : Prop
  | intro {t : ℚ} {unit : ℤ} {n : ℕ} (hscaled : Scaled t unit)
      (hmagnitude : t * 2 ^ unit = magnitude) (hrounds : RoundsTo t n)
      (hshape : WellShaped sign (n * 2 ^ unit) w)

/-- What is in normal shape is rounded to itself. -/
theorem WellShaped.exists_scaled {sign : Sign} {magnitude : ℚ} {w : UnpackedFloat}
    (h : WellShaped sign magnitude w) :
    ∃ (n : ℕ) (unit : ℤ), Scaled n unit ∧ (n : ℚ) * 2 ^ unit = magnitude := by
  cases h with
  | zero hzero =>
      refine ⟨0, -1074, ⟨by norm_num, by norm_num, le_rfl, .inr rfl⟩, ?_⟩
      rw [hzero, Nat.cast_zero, zero_mul]
  | finite hshape hmagnitude pos =>
      exact ⟨_, _, ⟨by positivity, mod_cast hshape.mantissa_lt, hshape.least_le,
        mod_cast hshape.full_or_least⟩, hmagnitude⟩

theorem WellShaped.correctlyRounded {sign : Sign} {magnitude : ℚ} {w : UnpackedFloat}
    (h : WellShaped sign magnitude w) : CorrectlyRounded sign magnitude w := by
  obtain ⟨n, unit, hscaled, hmagnitude⟩ := h.exists_scaled
  refine .intro hscaled hmagnitude (.self n) ?_
  rwa [hmagnitude]

/-- **What is shifted to its last place is correctly rounded.** -/
theorem correctlyRounded_roundWithAccuracy (sign : Sign) {mantissa : ℕ} {exponent : ℤ}
    {accuracy : Accuracy} {t : ℚ} (hpos : 0 < mantissa ∨ exponent ≤ -1074)
    (hresidue : Residue (.ofMantissaAndAccuracy mantissa accuracy) t)
    (htarget : exponent ≤ max ((mantissa.log2 : ℤ) + exponent - 52) (-1074)) :
    CorrectlyRounded sign (t * 2 ^ exponent)
      (roundWithAccuracy Format.binary64 sign mantissa exponent accuracy) := by
  set unit := max ((mantissa.log2 : ℤ) + exponent - 52) (-1074) with hunit
  set places := (unit - exponent).toNat with hplaces
  have hsum : exponent + places = unit := by omega
  have hscaled := hresidue.scaled hpos hunit hsum
  have hrounds := (hresidue.shiftRight places).roundsTo
  obtain ⟨hle, hfull⟩ := hscaled.le_of_roundsTo hrounds
  obtain ⟨hshape, hcarry⟩ := shiftToTargetExponent_carry hle hscaled.least_le hfull
  refine .intro hscaled ?_ hrounds ?_
  · rw [← hsum, zpow_add₀ (by norm_num), zpow_natCast]
    field_simp
  · have hfirst : shiftToTargetExponent Format.binary64 mantissa exponent accuracy
        = (ExtendedMantissa.ofMantissaAndAccuracy mantissa accuracy >>> places, unit) := by
      simp only [shiftToTargetExponent, shiftToExponent, targetExponent_eq]
      exact Prod.ext rfl hsum
    simp only [roundWithAccuracy, hfirst]
    rw [← hcarry]
    split
    · next hzero =>
        refine .zero ?_
        rw [hzero, Nat.cast_zero, zero_mul]
    · exact .finite hshape rfl _

/-- So is a mantissa with any exponent: one that is too large is lowered first. -/
theorem correctlyRounded_round (sign : Sign) {mantissa : ℕ} (exponent : ℤ)
    (pos : 0 < mantissa) :
    CorrectlyRounded sign (mantissa * 2 ^ exponent)
      (UnpackedFloat.round Format.binary64 sign mantissa exponent) := by
  simp only [UnpackedFloat.round, UnpackedFloat.decreaseExponent, targetExponent_eq]
  set places := (exponent - max ((mantissa.log2 : ℤ) + exponent - 52) (-1074)).toNat
    with hplaces
  have hpos : 0 < mantissa <<< places := by
    rw [Nat.shiftLeft_eq]
    positivity
  have hlog : (mantissa <<< places).log2 = mantissa.log2 + places := by
    rw [Nat.log2_eq_iff hpos.ne', Nat.shiftLeft_eq, pow_add, Nat.add_right_comm, pow_add]
    exact ⟨Nat.mul_le_mul_right _ (Nat.log2_self_le pos.ne'),
      Nat.mul_lt_mul_of_pos_right Nat.lt_log2_self (by positivity)⟩
  have hvalue : (mantissa : ℚ) * 2 ^ exponent
      = (mantissa <<< places : ℕ) * 2 ^ (exponent - places) := by
    rw [Nat.shiftLeft_eq, zpow_sub₀ (by norm_num), zpow_natCast]
    push_cast
    field_simp
  rw [hvalue]
  refine correctlyRounded_roundWithAccuracy sign (.inl hpos) (.exact _) ?_
  rw [hlog]
  omega

end YarnPreview
