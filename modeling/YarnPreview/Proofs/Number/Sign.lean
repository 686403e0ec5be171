import Mathlib
import YarnPreview.Number.Numeral
import YarnPreview.Proofs.Number.NonFinite

/-!
# Doubles with a sign

Every double but one has a sign: the infinities and the zeros have one, like the numbers
between them, and only the double that is no number has none.  The operations that give a
numeral its value never leave the doubles with a plus sign, except for the last one, which
puts the sign of the numeral in front.  So no numeral denotes the double that is no number,
however long its text is and however far out of range its value.

## Main definitions

* `unpackedSign?`, `sign?` — the sign of a double, if it has one

## Main statements

* `unpackedSign?_unpack_pack` — packing a double keeps its sign
* `sign?_mul`, `sign?_add`, `sign?_div`, `sign?_neg` — signs of results
* `sign?_ofScientific` — a decimal without sign
* `Numeral.isNaN_toFloat` — every numeral but one denotes a number or an infinity

## Why the sign is carried along

That a value is some number or infinity is not preserved by the steps of the fold: an
infinity less an infinity is none, and neither is zero times an infinity.  That it has a
plus sign is preserved, by an addition of two such values and by a multiplication with a
finite factor other than zero.
-/

namespace YarnPreview

open Float.Model (Format UnpackedFloat)
open Float.Model.UnpackedFloat (Sign packComponents unpackExponent unpackMantissa unpackSign)

/-- The sign of an unpacked double; no number has none. -/
def unpackedSign? : UnpackedFloat → Option Sign
  | .notANumber => none
  | .infinity sign => some sign
  | .zero sign => some sign
  | .finite sign _ _ _ => some sign

/-- **The sign of a double.** -/
def sign? (x : Float) : Option Sign :=
  unpackedSign? x.toModel.unpack

/-- A double with a sign is a number or an infinity. -/
theorem isNaN_eq_false_of_sign? {x : Float} {sign : Sign} (h : sign? x = some sign) :
    x.isNaN = false := by
  show x.toModel.unpack.isNaN = false
  unfold sign? at h
  cases hx : x.toModel.unpack with
  | notANumber =>
      rw [hx] at h
      cases h
  | _ => rfl

/-! ### Packing -/

/-- The sign bit of a double that was put together from parts. -/
theorem unpackSign_packComponents (sign : Sign) (exponent : BitVec Format.binary64.exponentBits)
    (mantissa : BitVec Format.binary64.mantissaBitsWithoutImplicit) :
    Sign.ofBitVec (unpackSign (packComponents Format.binary64 sign exponent mantissa)) = sign := by
  have hbits : unpackSign (packComponents Format.binary64 sign exponent mantissa)
      = sign.toBitVec := by
    have hsign : sign.toBitVec.toNat < 2 := sign.toBitVec.isLt
    have hexponent : exponent.toNat < 2 ^ 11 := exponent.isLt
    have hmantissa : mantissa.toNat < 2 ^ 52 := mantissa.isLt
    refine BitVec.eq_of_toNat_eq ?_
    simp only [unpackSign, packComponents, BitVec.toNat_cast, BitVec.extractLsb_toNat,
      Nat.shiftRight_eq_div_pow, toNat_append_eq_add]
    omega
  rw [hbits]
  cases sign <;> rfl

/-- Parts that are not those of a NaN keep their sign. -/
theorem unpackedSign?_packComponents (sign : Sign)
    {exponent : BitVec Format.binary64.exponentBits}
    {mantissa : BitVec Format.binary64.mantissaBitsWithoutImplicit}
    (h : exponent = -1#_ → mantissa = 0#_) :
    unpackedSign? (UnpackedFloat.unpack Format.binary64
      (packComponents Format.binary64 sign exponent mantissa)) = some sign := by
  simp only [UnpackedFloat.unpack, UnpackedFloat.unpackExponent_packComponents,
    UnpackedFloat.unpackMantissa_packComponents, unpackSign_packComponents]
  split
  · next hexponent =>
      rw [if_pos (h hexponent)]
      rfl
  · split
    · split <;> rfl
    · rfl

/-- **Packing a double keeps its sign**, also when it overflows. -/
theorem unpackedSign?_unpack_pack (f : UnpackedFloat) :
    unpackedSign? (Float.Model.pack f).unpack = unpackedSign? f := by
  show unpackedSign? (UnpackedFloat.unpack Format.binary64 (UnpackedFloat.pack _ f)) = _
  cases f with
  | notANumber => rfl
  | infinity sign => exact unpackedSign?_packComponents sign fun _ => rfl
  | zero sign => exact unpackedSign?_packComponents sign fun _ => rfl
  | finite sign mantissa exponent pos =>
      simp only [UnpackedFloat.pack]
      split
      · exact unpackedSign?_packComponents sign fun _ => rfl
      · next hrange =>
          split
          · refine unpackedSign?_packComponents sign ?_
            intro hexponent
            -- The exponent is in range, so it is not the one of the infinities.
            have hfull := congrArg BitVec.toNat hexponent
            rw [BitVec.toNat_ofNat] at hfull
            have hlast : (-BitVec.ofNat Format.binary64.exponentBits 1).toNat = 2 ^ 11 - 1 := rfl
            have hwidth : 2 ^ Format.binary64.exponentBits = 2 ^ 11 := rfl
            rw [hlast, hwidth] at hfull
            rw [hwidth] at hrange
            omega
          · refine unpackedSign?_packComponents sign ?_
            intro hexponent
            exact absurd hexponent (by decide)

/-! ### Rounding -/

/-- Rounding keeps the sign. -/
theorem unpackedSign?_roundWithAccuracy (spec : Format) (sign : Sign) (mantissa : Nat)
    (exponent : Int) (accuracy : UnpackedFloat.Accuracy) :
    unpackedSign? (UnpackedFloat.roundWithAccuracy spec sign mantissa exponent accuracy)
      = some sign := by
  simp only [UnpackedFloat.roundWithAccuracy]
  split <;> rfl

/-- A whole number that is not negative is rounded to a double with a plus sign. -/
theorem unpackedSign?_normalize (spec : Format) {mantissa : Int} (h : 0 ≤ mantissa)
    (exponent : Int) :
    unpackedSign? (UnpackedFloat.normalize spec mantissa exponent .positive)
      = some .positive := by
  simp only [UnpackedFloat.normalize]
  split
  · next hlt => exact absurd (Int.compare_eq_lt.mp hlt) (by omega)
  · rfl
  · exact unpackedSign?_roundWithAccuracy _ _ _ _ _

/-! ### Operations -/

/-- A finite double above zero has a mantissa and a plus sign. -/
theorem exists_unpack_of_pos {x : Float} (hfinite : x.isFinite = true) (hpos : 0.0 < x) :
    ∃ mantissa exponent pos, x.toModel.unpack = .finite .positive mantissa exponent pos := by
  have hfinite' : x.toModel.unpack.isFinite = true := hfinite
  have hlt : decide ((UnpackedFloat.compare (.zero .positive) x.toModel.unpack == some .lt) = true)
      = true := hpos
  cases hx : x.toModel.unpack with
  | notANumber =>
      rw [hx] at hfinite'
      cases hfinite'
  | infinity sign =>
      rw [hx] at hfinite'
      cases hfinite'
  | zero sign =>
      rw [hx] at hlt
      cases hlt
  | finite sign mantissa exponent pos =>
      cases sign with
      | positive => exact ⟨mantissa, exponent, pos, rfl⟩
      | negative =>
          rw [hx] at hlt
          cases hlt

/-- The sum of two doubles with a plus sign has one. -/
theorem sign?_add {x y : Float} (hx : sign? x = some .positive) (hy : sign? y = some .positive) :
    sign? (x + y) = some .positive := by
  show unpackedSign? (Float.Model.pack (UnpackedFloat.add _ x.toModel.unpack y.toModel.unpack)).unpack
    = _
  rw [unpackedSign?_unpack_pack]
  unfold sign? at hx hy
  generalize x.toModel.unpack = u at hx
  generalize y.toModel.unpack = v at hy
  cases u with
  | notANumber => cases hx
  | infinity sign =>
      cases hx
      cases v with
      | notANumber => cases hy
      | infinity sign' =>
          cases hy
          rfl
      | _ => rfl
  | zero sign =>
      cases hx
      cases v with
      | notANumber => cases hy
      | _ =>
          cases hy
          rfl
  | finite sign mantissa exponent pos =>
      cases hx
      cases v with
      | notANumber => cases hy
      | finite sign' mantissa' exponent' pos' =>
          cases hy
          exact unpackedSign?_normalize _ (Int.add_nonneg (Int.natCast_nonneg _)
            (Int.natCast_nonneg _)) _
      | _ =>
          cases hy
          rfl

/-- The product of a double with a plus sign and a positive finite one has a plus sign. -/
theorem sign?_mul {x y : Float} (hx : sign? x = some .positive) (hfinite : y.isFinite = true)
    (hpos : 0.0 < y) : sign? (x * y) = some .positive := by
  obtain ⟨mantissa, exponent, pos, hy⟩ := exists_unpack_of_pos hfinite hpos
  show unpackedSign? (Float.Model.pack (UnpackedFloat.mul _ x.toModel.unpack y.toModel.unpack)).unpack
    = _
  rw [unpackedSign?_unpack_pack, hy]
  unfold sign? at hx
  generalize x.toModel.unpack = u at hx
  cases u with
  | notANumber => cases hx
  | finite sign mantissa' exponent' pos' =>
      cases hx
      exact unpackedSign?_roundWithAccuracy _ _ _ _ _
  | _ =>
      cases hx
      rfl

/-- So has their quotient. -/
theorem sign?_div {x y : Float} (hx : sign? x = some .positive) (hfinite : y.isFinite = true)
    (hpos : 0.0 < y) : sign? (x / y) = some .positive := by
  obtain ⟨mantissa, exponent, pos, hy⟩ := exists_unpack_of_pos hfinite hpos
  show unpackedSign? (Float.Model.pack (UnpackedFloat.div _ x.toModel.unpack y.toModel.unpack)).unpack
    = _
  rw [unpackedSign?_unpack_pack, hy]
  unfold sign? at hx
  generalize x.toModel.unpack = u at hx
  cases u with
  | notANumber => cases hx
  | finite sign mantissa' exponent' pos' =>
      cases hx
      exact unpackedSign?_roundWithAccuracy _ _ _ _ _
  | _ =>
      cases hx
      rfl

/-- Negation turns the sign around. -/
theorem sign?_neg (x : Float) : sign? (-x) = (sign? x).map (- ·) := by
  show unpackedSign? (Float.Model.pack x.toModel.unpack.neg).unpack = _
  rw [unpackedSign?_unpack_pack, sign?]
  cases x.toModel.unpack <;> rfl

/-! ### Numerals -/

/-- The powers of ten that are looked up are finite and above zero. -/
theorem powersOfTen_pos :
    ∀ x ∈ Float.exactlyRepresentablePowersOfTen, x.isFinite = true ∧ 0.0 < x := by
  decide +kernel

/-- A coefficient times a power of ten has a plus sign, in range or not. -/
theorem unpackedSign?_ofScientific (spec : Format) (coefficient : Nat) (exponent : Int) :
    unpackedSign? (UnpackedFloat.ofScientific spec coefficient exponent) = some .positive := by
  unfold UnpackedFloat.ofScientific
  split
  · rfl
  · split
    · rfl
    · split
      · rfl
      · split
        · exact unpackedSign?_roundWithAccuracy _ _ _ _ _
        · exact unpackedSign?_roundWithAccuracy _ _ _ _ _

/-- **A decimal without sign** is a double with a plus sign. -/
theorem sign?_ofScientific (coefficient : Nat) (negative : Bool) (exponent : Nat) :
    sign? (Float.ofScientific coefficient negative exponent) = some .positive := by
  unfold Float.ofScientific
  split
  · -- The short way: one operation on two exact doubles.
    have hcoefficient : sign? coefficient.toUInt64.toFloat = some .positive := by
      show unpackedSign? (Float.Model.pack (UnpackedFloat.ofUInt64 _ _)).unpack = _
      rw [unpackedSign?_unpack_pack]
      exact unpackedSign?_normalize _ (Int.natCast_nonneg _) _
    have hpower : ∀ h : exponent < Float.exactlyRepresentablePowersOfTen.size,
        Float.exactlyRepresentablePowersOfTen[exponent].isFinite = true ∧
          0.0 < Float.exactlyRepresentablePowersOfTen[exponent] :=
      fun h => powersOfTen_pos _ (Array.getElem_mem h)
    dsimp only
    split
    · exact sign?_div hcoefficient (hpower _).1 (hpower _).2
    · exact sign?_mul hcoefficient (hpower _).1 (hpower _).2
  · show unpackedSign? (Float.Model.pack (UnpackedFloat.ofScientific _ _ _)).unpack = _
    rw [unpackedSign?_unpack_pack]
    exact unpackedSign?_ofScientific _ _ _

/-- A natural number is a double with a plus sign. -/
theorem sign?_ofNat (n : Nat) : sign? (Float.ofNat n) = some .positive :=
  sign?_ofScientific n false 0

/-- **A whole number is no NaN.** -/
theorem isNaN_ofInt (n : Int) : (Float.ofInt n).isNaN = false := by
  cases n with
  | ofNat n => exact isNaN_eq_false_of_sign? (sign?_ofNat n)
  | negSucc n =>
      have hsign : sign? (-Float.ofNat (n + 1)) = some (-.positive) := by
        rw [sign?_neg, sign?_ofNat]
        rfl
      exact isNaN_eq_false_of_sign? hsign

/-- One more digit keeps the plus sign of what is folded, so every text of digits has it. -/
theorem Radix.sign?_fold (radix : Radix) (digits : List Nat) :
    sign? (radix.fold digits) = some .positive := by
  induction digits using List.reverseRecOn with
  | nil => exact sign?_ofScientific 0 true 1
  | append_singleton digits d ih =>
      have hbase : (Float.ofNat radix.base).isFinite = true ∧ 0.0 < Float.ofNat radix.base := by
        cases radix <;> decide
      rw [fold_concat]
      exact sign?_add (sign?_mul ih hbase.1 hbase.2) (sign?_ofNat d)

/-- The double of a decimal has the sign of the decimal. -/
theorem Decimal.exists_sign?_toFloat (d : Decimal) : ∃ sign, sign? d.toFloat = some sign := by
  have hmagnitude : ∀ (coefficient : Nat) (exponent : Int),
      sign? (if 0 ≤ exponent then Float.ofScientific coefficient false exponent.toNat
        else Float.ofScientific coefficient true (-exponent).toNat) = some .positive := by
    intro coefficient exponent
    split <;> exact sign?_ofScientific _ _ _
  unfold toFloat
  dsimp only
  split
  · rw [sign?_neg, hmagnitude]
    exact ⟨_, rfl⟩
  · exact ⟨_, hmagnitude _ _⟩

/-- **Every numeral denotes a number or an infinity**, except the name of what is none. -/
theorem Numeral.isNaN_toFloat {numeral : Numeral} (h : numeral ≠ .undefined) :
    numeral.toFloat.isNaN = false := by
  cases numeral with
  | infinity negative => cases negative <;> decide
  | undefined => exact absurd rfl h
  | marked radix digits => exact isNaN_eq_false_of_sign? (radix.sign?_fold digits)
  | decimal value =>
      obtain ⟨sign, hsign⟩ := value.exists_sign?_toFloat
      exact isNaN_eq_false_of_sign? hsign

end YarnPreview
