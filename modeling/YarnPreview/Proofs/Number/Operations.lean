import Mathlib
import YarnPreview.Proofs.Number.Nearest

/-!
# Operations round to the nearest double

Sums, differences, products and quotients of doubles are the nearest doubles to the exact
ones, in the sense of `Nearest` and so without a look at bits.

## Main statements

* `nearest_pack` — a correctly rounded result is the nearest double
* `nearest_add`, `nearest_sub` — sums and differences
* `nearest_mul`, `nearest_div` — products and quotients
* `exactValue_ofNat` — a whole number of fifty-three bits is a double

## Quotients

A dividend is shifted to the left until the whole part of the quotient fills a mantissa, or
until the least exponent is reached; what the remainder knows about the next bits is kept
beside it.  So the whole part may be zero, and only at the least exponent or below.
-/

namespace YarnPreview

open Float.Model (Format UnpackedFloat)
open Float.Model.UnpackedFloat (Sign accuracyOfFraction divCore)

/-- **A correctly rounded result is the nearest double.** -/
theorem nearest_pack {sign : Sign} {magnitude : ℚ} {w : UnpackedFloat}
    (h : CorrectlyRounded sign magnitude w) :
    Nearest (signFactor sign * magnitude) (.ofModel (.pack w)) := by
  obtain ⟨hscaled, rfl, hrounds, hshape⟩ := h
  rw [nearest_iff sign hscaled hrounds]
  refine (lt_or_ge _ _).imp (fun hlt => ⟨hlt, ?_, ?_⟩) (fun hge => ⟨hge, ?_⟩)
  · show (Float.Model.pack w).unpack.isFinite = true
    rw [hshape.unpack_pack_of_lt hlt]
    exact hshape.isFinite
  · show unpackedValue (Float.Model.pack w).unpack = _
    rw [hshape.unpack_pack_of_lt hlt]
    exact hshape.unpackedValue_eq
  · have hunpack := hshape.unpack_pack_of_le hge
    refine eq_of_unpack_eq ?_ ?_
    · show (Float.Model.pack w).unpack.isFinite = false
      rw [hunpack]
      rfl
    · show (Float.Model.pack w).unpack = _
      rw [hunpack]
      cases sign <;> rfl

/-- An integer times a power of two is rounded to the nearest double. -/
theorem nearest_normalize (k : ℤ) (e : ℤ) (zeroSign : Sign) :
    Nearest (k * 2 ^ e) (.ofModel (.pack (UnpackedFloat.normalize Format.binary64 k e zeroSign))) := by
  simp only [UnpackedFloat.normalize]
  split
  · next hlt =>
      have hneg : k < 0 := Int.compare_eq_lt.mp hlt
      have hvalue : (k : ℚ) * 2 ^ e = signFactor .negative * ((-k).toNat * 2 ^ e) := by
        have hcast : (((-k).toNat : ℤ) : ℚ) = ((-k : ℤ) : ℚ) := by
          rw [Int.toNat_of_nonneg (by omega)]
        rw [Int.cast_natCast] at hcast
        rw [hcast, signFactor]
        push_cast
        ring
      rw [hvalue]
      exact nearest_pack (correctlyRounded_round _ _ (by omega))
  · next heq =>
      have hzero : k = 0 := Int.compare_eq_eq.mp heq
      have hvalue : (k : ℚ) * 2 ^ e = signFactor zeroSign * 0 := by
        rw [hzero, Int.cast_zero, zero_mul, mul_zero]
      rw [hvalue]
      exact nearest_pack (WellShaped.zero rfl).correctlyRounded
  · next hgt =>
      have hpos : 0 < k := Int.compare_eq_gt.mp hgt
      have hvalue : (k : ℚ) * 2 ^ e = signFactor .positive * (k.toNat * 2 ^ e) := by
        have hcast : ((k.toNat : ℤ) : ℚ) = (k : ℚ) := by
          rw [Int.toNat_of_nonneg hpos.le]
        rw [Int.cast_natCast] at hcast
        rw [hcast, signFactor, one_mul]
      rw [hvalue]
      exact nearest_pack (correctlyRounded_round _ _ (by omega))

/-- Lowering an exponent keeps the number. -/
theorem decreaseExponent_mul_zpow (mantissa : ℕ) {exponent target : ℤ} (h : target ≤ exponent) :
    ((UnpackedFloat.decreaseExponent mantissa exponent target).1 : ℚ) * 2 ^ target
      = mantissa * 2 ^ exponent := by
  obtain ⟨places, rfl⟩ : ∃ places : ℕ, exponent = target + places :=
    ⟨(exponent - target).toNat, by omega⟩
  simp only [UnpackedFloat.decreaseExponent, add_sub_cancel_left, Int.toNat_natCast,
    Nat.shiftLeft_eq, Nat.cast_mul, Nat.cast_pow, Nat.cast_ofNat]
  rw [zpow_add₀ (by norm_num), zpow_natCast]
  ring

/-- A zero is the nearest double to zero, whatever its sign. -/
theorem nearest_zero (sign : Sign) : Nearest 0 (.ofModel (.pack (.zero sign))) := by
  have hzero : WellShaped sign 0 (.zero sign) := .zero rfl
  have hnearest := nearest_pack hzero.correctlyRounded
  rwa [mul_zero] at hnearest

/-- **The sum of two doubles is the nearest double to the exact sum.** -/
theorem nearest_add {x y : Float} (hx : x.isFinite = true) (hy : y.isFinite = true) :
    Nearest (exactValue x + exactValue y) (x + y) := by
  obtain ⟨sign, magnitude, hxshape, -⟩ := exists_wellShaped hx
  obtain ⟨sign', magnitude', hyshape, -⟩ := exists_wellShaped hy
  show Nearest (unpackedValue x.toModel.unpack + unpackedValue y.toModel.unpack)
    (.ofModel (.pack (UnpackedFloat.add _ x.toModel.unpack y.toModel.unpack)))
  rw [hxshape.unpackedValue_eq, hyshape.unpackedValue_eq]
  generalize x.toModel.unpack = u at hxshape
  generalize y.toModel.unpack = v at hyshape
  cases hxshape with
  | zero hzero =>
      rw [hzero, mul_zero, zero_add]
      cases hyshape with
      | zero hzero' =>
          rw [hzero', mul_zero, UnpackedFloat.add]
          split <;> exact nearest_zero _
      | finite hshape hmagnitude pos =>
          exact nearest_pack (WellShaped.finite hshape hmagnitude pos).correctlyRounded
  | @finite m e hshape hmagnitude pos =>
      cases hyshape with
      | zero hzero' =>
          rw [hzero', mul_zero, add_zero]
          exact nearest_pack (WellShaped.finite hshape hmagnitude pos).correctlyRounded
      | @finite m' e' hshape' hmagnitude' pos' =>
          -- both are brought to the smaller exponent and added there
          have hsum : signFactor sign * magnitude + signFactor sign' * magnitude'
              = ((sign.apply (UnpackedFloat.decreaseExponent m e (min e e')).1
                + sign'.apply (UnpackedFloat.decreaseExponent m' e' (min e e')).1 : ℤ) : ℚ)
                * 2 ^ min e e' := by
            rw [Int.cast_add, cast_apply, cast_apply, Int.cast_natCast, Int.cast_natCast, add_mul,
              mul_assoc, mul_assoc, decreaseExponent_mul_zpow m (min_le_left e e'),
              decreaseExponent_mul_zpow m' (min_le_right e e'), hmagnitude, hmagnitude']
          rw [hsum]
          exact nearest_normalize _ _ _

/-- An unpacked double in normal shape, turned around. -/
theorem WellShaped.neg {sign : Sign} {magnitude : ℚ} {w : UnpackedFloat}
    (h : WellShaped sign magnitude w) : WellShaped (-sign) magnitude w.neg := by
  cases h with
  | zero hzero => exact .zero hzero
  | finite hshape hmagnitude pos => exact .finite hshape hmagnitude pos

theorem signFactor_neg (sign : Sign) : signFactor (-sign) = -signFactor sign := by
  cases sign
  · exact (neg_neg (1 : ℚ)).symm
  · rfl

/-- Turning a finite double around loses nothing. -/
theorem unpack_neg {x : Float} (hx : x.isFinite = true) :
    (-x).toModel.unpack = x.toModel.unpack.neg := by
  obtain ⟨sign, magnitude, hshape, hrange⟩ := exists_wellShaped hx
  exact hshape.neg.unpack_pack_of_lt hrange

/-- **The negative of a finite double.** -/
theorem exactValue_neg {x : Float} (hx : x.isFinite = true) :
    (-x).isFinite = true ∧ exactValue (-x) = -exactValue x := by
  obtain ⟨sign, magnitude, hshape, -⟩ := exists_wellShaped hx
  constructor
  · show (-x).toModel.unpack.isFinite = true
    rw [unpack_neg hx]
    exact hshape.neg.isFinite
  · rw [exactValue, unpack_neg hx, hshape.neg.unpackedValue_eq, exactValue,
      hshape.unpackedValue_eq, signFactor_neg, neg_mul]

/-- Taking away is adding the negative. -/
theorem sub_eq_add_neg_unpacked (spec : Format) (u v : UnpackedFloat) :
    UnpackedFloat.sub spec u v = UnpackedFloat.add spec u v.neg := by
  have happly : ∀ (sign : Sign) (n : ℤ), (-sign).apply n = -sign.apply n := by
    intro sign n
    cases sign
    · exact (neg_neg n).symm
    · rfl
  cases u <;> cases v <;> try rfl
  next sign mantissa exponent pos sign' mantissa' exponent' pos' =>
    simp only [UnpackedFloat.sub, UnpackedFloat.neg, UnpackedFloat.add, happly, sub_eq_add_neg]

/-- **The difference of two doubles is the nearest double to the exact difference.** -/
theorem nearest_sub {x y : Float} (hx : x.isFinite = true) (hy : y.isFinite = true) :
    Nearest (exactValue x - exactValue y) (x - y) := by
  obtain ⟨hfinite, hvalue⟩ := exactValue_neg hy
  have hsum : x - y = x + -y := by
    show Float.ofModel (.pack (UnpackedFloat.sub _ x.toModel.unpack y.toModel.unpack))
      = .ofModel (.pack (UnpackedFloat.add _ x.toModel.unpack (-y).toModel.unpack))
    rw [sub_eq_add_neg_unpacked, unpack_neg hy]
  rw [hsum, sub_eq_add_neg, ← hvalue]
  exact nearest_add hx hfinite

/-- The product of two mantissas in normal shape is never too short for its exponent. -/
theorem Normalised.target_mul {m m' : ℕ} {e e' : ℤ} (h : Normalised m e) (h' : Normalised m' e')
    (hpos : 0 < m) (hpos' : 0 < m') :
    e + e' ≤ max (((m * m').log2 : ℤ) + (e + e') - 52) (-1074) := by
  have hwidth : 2 ^ 52 ≤ m ∨ 2 ^ 52 ≤ m' → 52 ≤ (m * m').log2 := by
    intro hfull
    rw [Nat.le_log2 (Nat.mul_pos hpos hpos').ne']
    rcases hfull with hfull | hfull
    · exact hfull.trans (Nat.le_mul_of_pos_right m hpos')
    · exact hfull.trans (Nat.le_mul_of_pos_left m' hpos)
  rcases h.full_or_least with hfull | hleast
  · have := hwidth (.inl hfull)
    omega
  · rcases h'.full_or_least with hfull | hleast'
    · have := hwidth (.inr hfull)
      omega
    · omega

/-- **The product of two doubles is the nearest double to the exact product.** -/
theorem nearest_mul {x y : Float} (hx : x.isFinite = true) (hy : y.isFinite = true) :
    Nearest (exactValue x * exactValue y) (x * y) := by
  obtain ⟨sign, magnitude, hxshape, -⟩ := exists_wellShaped hx
  obtain ⟨sign', magnitude', hyshape, -⟩ := exists_wellShaped hy
  show Nearest (unpackedValue x.toModel.unpack * unpackedValue y.toModel.unpack)
    (.ofModel (.pack (UnpackedFloat.mul _ x.toModel.unpack y.toModel.unpack)))
  rw [hxshape.unpackedValue_eq, hyshape.unpackedValue_eq]
  generalize x.toModel.unpack = u at hxshape
  generalize y.toModel.unpack = v at hyshape
  cases hxshape with
  | zero hzero =>
      rw [hzero, mul_zero, zero_mul]
      cases hyshape <;> exact nearest_zero _
  | @finite m e hshape hmagnitude pos =>
      cases hyshape with
      | zero hzero' =>
          rw [hzero', mul_zero, mul_zero]
          exact nearest_zero _
      | @finite m' e' hshape' hmagnitude' pos' =>
          have hproduct : signFactor sign * magnitude * (signFactor sign' * magnitude')
              = signFactor (sign * sign') * ((m * m' : ℕ) * 2 ^ (e + e')) := by
            rw [signFactor_mul, ← hmagnitude, ← hmagnitude', zpow_add₀ (by norm_num)]
            push_cast
            ring
          rw [hproduct]
          exact nearest_pack (correctlyRounded_roundWithAccuracy _ (.inl (Nat.mul_pos pos pos'))
            (.exact _) (hshape.target_mul hshape' pos pos'))

/-- **A whole quotient and what its remainder knows** about the bits after it. -/
theorem Residue.quotient (m : ℕ) {d : ℕ} (hd : 0 < d) :
    Residue (.ofMantissaAndAccuracy (m / d) (accuracyOfFraction (m % d) d)) (m / d) := by
  have hpos : (0 : ℚ) < d := mod_cast hd
  have hsplit : (m : ℚ) / d = (m / d : ℕ) + (m % d : ℕ) / d := by
    have hnat : (m : ℚ) = (m / d : ℕ) * d + (m % d : ℕ) := mod_cast (Nat.div_add_mod' m d).symm
    rw [add_div' _ _ _ hpos.ne', ← hnat]
  have hlt : ((m % d : ℕ) : ℚ) < d := mod_cast Nat.mod_lt m hd
  rw [hsplit, accuracyOfFraction]
  split
  · next hzero =>
      rw [hzero, Nat.cast_zero, zero_div, add_zero]
      exact .whole _
  · next hrest =>
      have hrest' : (0 : ℚ) < (m % d : ℕ) := mod_cast Nat.pos_of_ne_zero hrest
      have hfraction : 0 < ((m % d : ℕ) : ℚ) / d := div_pos hrest' hpos
      -- twice the remainder against the divisor tells on which side of a half it lies
      rcases lt_trichotomy (2 * (m % d)) d with hside | hside | hside
      · rw [Nat.compare_eq_lt.mpr hside]
        have hhalf : ((m % d : ℕ) : ℚ) / d < 1 / 2 := by
          rw [div_lt_iff₀ hpos]
          have : (2 : ℚ) * (m % d : ℕ) < d := mod_cast hside
          linarith
        exact .low (by linarith) (by linarith)
      · rw [Nat.compare_eq_eq.mpr hside]
        have hhalf : ((m % d : ℕ) : ℚ) / d = 1 / 2 := by
          rw [div_eq_iff hpos.ne']
          have : (2 : ℚ) * (m % d : ℕ) = d := mod_cast hside
          linarith
        rw [hhalf]
        exact .half _
      · rw [Nat.compare_eq_gt.mpr hside]
        have hhalf : 1 / 2 < ((m % d : ℕ) : ℚ) / d := by
          rw [lt_div_iff₀ hpos]
          have : (d : ℚ) < 2 * (m % d : ℕ) := mod_cast hside
          linarith
        have hone : ((m % d : ℕ) : ℚ) / d < 1 := (div_lt_one hpos).mpr hlt
        exact .high (by linarith) (by linarith)

/-- **Dividing mantissas.**  The whole part with its remainder stands for the quotient, and it
fills a mantissa unless its exponent is the least one or below. -/
theorem divCore_residue {m m' : ℕ} (pos : 0 < m) (pos' : 0 < m') (e e' : ℤ) :
    ∃ (places : ℕ) (exponent : ℤ), divCore Format.binary64 m e m' e'
        = (m * 2 ^ places / m', exponent, accuracyOfFraction (m * 2 ^ places % m') m') ∧
      ((m * 2 ^ places : ℕ) : ℚ) / m' * 2 ^ exponent = m * 2 ^ e / (m' * 2 ^ e') ∧
      (2 ^ 52 ≤ m * 2 ^ places / m' ∨ exponent ≤ -1074) := by
  set exponent := min (e - e')
    (Format.binary64.targetExponent (Float.Model.totalExponent m e - Float.Model.totalExponent m' e'))
    with hexponent
  have htarget : exponent
      = min (e - e') (max ((m.log2 : ℤ) + 1 + e - (m'.log2 + 1 + e') - 53) (-1074)) := hexponent
  refine ⟨(e - e' - exponent).toNat, exponent, ?_, ?_, ?_⟩
  · rw [← Nat.shiftLeft_eq]
    rfl
  · have hsum : e = (e - e' - exponent).toNat + exponent + e' := by omega
    have hpower : (2 : ℚ) ^ e = 2 ^ (e - e' - exponent).toNat * 2 ^ exponent * 2 ^ e' := by
      nth_rewrite 1 [hsum]
      rw [zpow_add₀ (by norm_num), zpow_add₀ (by norm_num), zpow_natCast]
    have hpos' : (m' : ℚ) ≠ 0 := mod_cast pos'.ne'
    rw [hpower]
    push_cast
    field_simp
  · by_cases hleast : exponent ≤ -1074
    · exact .inr hleast
    · left
      have hplaces : 53 + m'.log2 ≤ m.log2 + (e - e' - exponent).toNat := by omega
      rw [Nat.le_div_iff_mul_le pos']
      calc 2 ^ 52 * m' ≤ 2 ^ 52 * 2 ^ (m'.log2 + 1) :=
            Nat.mul_le_mul_left _ Nat.lt_log2_self.le
        _ = 2 ^ (53 + m'.log2) := by
            rw [← pow_add]
            congr 1
            omega
        _ ≤ 2 ^ (m.log2 + (e - e' - exponent).toNat) := Nat.pow_le_pow_right two_pos hplaces
        _ ≤ m * 2 ^ (e - e' - exponent).toNat := by
            rw [pow_add]
            exact Nat.mul_le_mul_right _ (Nat.log2_self_le pos.ne')

theorem signFactor_div (sign sign' : Sign) :
    signFactor (sign / sign') = signFactor sign / signFactor sign' := by
  have hmul : sign / sign' = sign * sign' := by
    cases sign <;> cases sign' <;> rfl
  rw [hmul, signFactor_mul]
  cases sign'
  · show signFactor sign * -1 = signFactor sign / -1
    rw [div_neg, div_one, mul_neg_one]
  · show signFactor sign * 1 = signFactor sign / 1
    rw [div_one, mul_one]

/-- **The quotient of two doubles is the nearest double to the exact quotient.** -/
theorem nearest_div {x y : Float} (hx : x.isFinite = true) (hy : y.isFinite = true)
    (hne : exactValue y ≠ 0) : Nearest (exactValue x / exactValue y) (x / y) := by
  obtain ⟨sign, magnitude, hxshape, -⟩ := exists_wellShaped hx
  obtain ⟨sign', magnitude', hyshape, -⟩ := exists_wellShaped hy
  rw [exactValue, hyshape.unpackedValue_eq] at hne
  show Nearest (unpackedValue x.toModel.unpack / unpackedValue y.toModel.unpack)
    (.ofModel (.pack (UnpackedFloat.div _ x.toModel.unpack y.toModel.unpack)))
  rw [hxshape.unpackedValue_eq, hyshape.unpackedValue_eq]
  generalize x.toModel.unpack = u at hxshape
  generalize y.toModel.unpack = v at hyshape
  cases hyshape with
  | zero hzero' => exact absurd (by rw [hzero', mul_zero]) hne
  | @finite m' e' hshape' hmagnitude' pos' =>
      cases hxshape with
      | zero hzero =>
          rw [hzero, mul_zero, zero_div]
          exact nearest_zero _
      | @finite m e hshape hmagnitude pos =>
          obtain ⟨places, exponent, hcore, hvalue, hwidth⟩ := divCore_residue pos pos' e e'
          have hquotient : signFactor sign * magnitude / (signFactor sign' * magnitude')
              = signFactor (sign / sign') * (((m * 2 ^ places : ℕ) : ℚ) / m' * 2 ^ exponent) := by
            rw [signFactor_div, hvalue, hmagnitude, hmagnitude', mul_div_mul_comm]
          rw [hquotient]
          simp only [UnpackedFloat.div, hcore]
          have hlog : 2 ^ 52 ≤ m * 2 ^ places / m' → 52 ≤ (m * 2 ^ places / m').log2 := by
            intro hfull
            exact (Nat.le_log2 (by omega)).mpr hfull
          refine nearest_pack (correctlyRounded_roundWithAccuracy _ (hwidth.imp_left (by omega))
            (.quotient _ pos') ?_)
          rcases hwidth with hfull | hleast
          · have := hlog hfull
            omega
          · exact le_max_of_le_right hleast

/-- The product of doubles that are known … -/
theorem nearest_mul_of_exactValue {x y : Float} {v w : ℚ}
    (hx : x.isFinite = true ∧ exactValue x = v) (hy : y.isFinite = true ∧ exactValue y = w) :
    Nearest (v * w) (x * y) := by
  rw [← hx.2, ← hy.2]
  exact nearest_mul hx.1 hy.1

/-- … and their quotient. -/
theorem nearest_div_of_exactValue {x y : Float} {v w : ℚ}
    (hx : x.isFinite = true ∧ exactValue x = v) (hy : y.isFinite = true ∧ exactValue y = w)
    (hne : w ≠ 0) : Nearest (v / w) (x / y) := by
  rw [← hy.2] at hne
  rw [← hx.2, ← hy.2]
  exact nearest_div hx.1 hy.1 hne

/-- **A whole number of fifty-three bits is a double**, and read as such. -/
theorem exactValue_ofNat {n : ℕ} (h : n < 2 ^ 53) :
    (Float.ofNat n).isFinite = true ∧ exactValue (Float.ofNat n) = n := by
  obtain ⟨y, hy, hvalue⟩ : ∃ y : Float, y.isFinite = true ∧ exactValue y = n := by
    have hlt : ∀ k, 53 ≤ k → n < 2 ^ k := fun k hk =>
      h.trans_le (Nat.pow_le_pow_right two_pos hk)
    have hrange : n * 2 ^ 0 < 2 ^ 1024 := by
      rw [pow_zero, mul_one]
      exact hlt 1024 (by norm_num)
    obtain ⟨y, hy, hvalue⟩ := exists_exactValue_natCast h.le hrange
    exact ⟨y, hy, by rw [hvalue, pow_zero, mul_one]⟩
  have hread : n.toUInt64.toFloat.isFinite = true ∧ exactValue n.toUInt64.toFloat = n := by
    have hword : n.toUInt64.toNat = n := UInt64.toNat_ofNat_of_lt (h.trans (by decide))
    have hnearest : Nearest ((n.toUInt64.toNat : ℤ) * 2 ^ (0 : ℤ)) n.toUInt64.toFloat :=
      nearest_normalize n.toUInt64.toNat 0 .positive
    rwa [hword, Int.cast_natCast, zpow_zero, mul_one, ← hvalue, nearest_exactValue_iff hy,
      hvalue] at hnearest
  have hone : Float.exactlyRepresentablePowersOfTen[0].isFinite = true ∧
      exactValue Float.exactlyRepresentablePowersOfTen[0] = 1 := by
    have hunpack : (Float.exactlyRepresentablePowersOfTen[0]).toModel.unpack
        = .finite .positive (2 ^ 52) (-52) (by norm_num) := rfl
    refine ⟨rfl, ?_⟩
    rw [exactValue, hunpack, unpackedValue]
    norm_num [Sign.apply]
  have hproduct := nearest_mul hread.1 hone.1
  rw [hread.2, hone.2, mul_one, ← hvalue, nearest_exactValue_iff hy, hvalue] at hproduct
  have hread : Float.ofNat n = n.toUInt64.toFloat * Float.exactlyRepresentablePowersOfTen[0] := by
    show Float.ofScientific n false 0 = _
    rw [Float.ofScientific, dif_pos ⟨h, by norm_num⟩]
    rfl
  rwa [hread]

/-- So is the next power of two. -/
theorem exactValue_ofNat_of_le {n : ℕ} (h : n ≤ 2 ^ 53) :
    (Float.ofNat n).isFinite = true ∧ exactValue (Float.ofNat n) = n := by
  rcases h.lt_or_eq with hlt | rfl
  · exact exactValue_ofNat hlt
  · have hunpack : (Float.ofNat (2 ^ 53)).toModel.unpack
        = .finite .positive (2 ^ 52) 1 (by norm_num) := rfl
    refine ⟨rfl, ?_⟩
    rw [exactValue, hunpack, unpackedValue]
    norm_num [Sign.apply]

/-- A literal that is a whole number is that number. -/
theorem exactValue_of_eq_ofNat {x : Float} {n : ℕ} (hx : x = Float.ofNat n) (hn : n ≤ 2 ^ 53) :
    x.isFinite = true ∧ exactValue x = n :=
  hx ▸ exactValue_ofNat_of_le hn

end YarnPreview
