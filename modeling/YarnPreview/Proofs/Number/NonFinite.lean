import Mathlib
import YarnPreview.Number.Numeral

/-!
# The doubles that are not finite

There are three of them: one that is no number and two infinities.  A double is its
bits, so this is a statement about bits, and it is what lets a name such as
`Infinity` stand for a double without loss.

## Main statements

* `packComponents_of_parts` — the bits of a double, put together again from its parts
* `pack_unpack_of_not_isFinite` — a double that is not finite is determined by its kind
* `eq_of_not_isFinite` — the three doubles that are not finite

## One NaN

The bit patterns with a full exponent and a mantissa other than zero would all be
NaNs.  A double admits a single one of them, by the validity that it carries, and the
case of a NaN rests on that alone.
-/

namespace YarnPreview

open Float.Model (Format UnpackedFloat)
open Float.Model.UnpackedFloat (Sign packComponents unpackExponent unpackMantissa unpackSign)

/-- Two runs of bits side by side, as a number. -/
theorem toNat_append_eq_add {m n : Nat} (high : BitVec m) (low : BitVec n) :
    (high ++ low).toNat = 2 ^ n * high.toNat + low.toNat := by
  rw [BitVec.toNat_append, Nat.shiftLeft_eq, Nat.mul_comm,
    Nat.two_pow_add_eq_or_of_lt low.isLt]

/-- **Sign, exponent and mantissa are all of a double**: put together again they are
its bits. -/
theorem packComponents_of_parts (bits : BitVec Format.binary64.numBits) :
    packComponents Format.binary64 (Sign.ofBitVec (unpackSign bits)) (unpackExponent bits)
      (unpackMantissa bits) = bits := by
  have hsign : (Sign.ofBitVec (unpackSign bits)).toBitVec = unpackSign bits := by
    generalize unpackSign bits = sign
    revert sign
    decide
  have hbits : bits.toNat < 2 ^ 64 := bits.isLt
  have hfirst : (unpackSign bits).toNat = bits.toNat / 2 ^ 63 := by
    simp only [unpackSign, BitVec.toNat_cast, BitVec.extractLsb_toNat,
      Nat.shiftRight_eq_div_pow]
    omega
  have hmiddle : (unpackExponent bits).toNat = bits.toNat / 2 ^ 52 % 2 ^ 11 := by
    simp only [unpackExponent, BitVec.toNat_cast, BitVec.extractLsb_toNat,
      Nat.shiftRight_eq_div_pow]
  have hlast : (unpackMantissa bits).toNat = bits.toNat % 2 ^ 52 := by
    simp only [unpackMantissa, BitVec.toNat_cast, BitVec.extractLsb_toNat,
      Nat.shiftRight_zero]
  refine BitVec.eq_of_toNat_eq ?_
  rw [packComponents, hsign, toNat_append_eq_add, toNat_append_eq_add, hfirst, hmiddle, hlast]
  show 2 ^ 52 * (2 ^ 11 * (bits.toNat / 2 ^ 63) + bits.toNat / 2 ^ 52 % 2 ^ 11)
    + bits.toNat % 2 ^ 52 = bits.toNat
  omega

/-- **A double that is not finite is determined by its kind**: packing what it unpacks
to gives it back. -/
theorem pack_unpack_of_not_isFinite {x : Float} (h : x.isFinite = false) :
    Float.Model.pack x.toModel.unpack = x.toModel := by
  obtain ⟨bits, hvalid⟩ := x
  have hunpack : (UnpackedFloat.unpack Format.binary64 bits.toBitVec).isFinite = false := h
  have hparts := packComponents_of_parts bits.toBitVec
  simp only [Float.Model.pack, Float.Model.unpack, Float.Model.mk.injEq]
  refine UInt64.eq_of_toBitVec_eq ?_
  simp only [UnpackedFloat.unpack] at hunpack ⊢
  split at hunpack
  · next hexponent =>
      rw [if_pos hexponent]
      split
      · next hmantissa =>
          rw [hexponent, hmantissa] at hparts
          exact hparts
      · next hmantissa => exact (hvalid.eq_packedNaN hexponent hmantissa).symm
  · split at hunpack
    · split at hunpack <;> cases hunpack
    · cases hunpack

/-- Two doubles of one kind, neither of them finite, are equal. -/
theorem eq_of_unpack_eq {x y : Float} (hx : x.isFinite = false)
    (h : x.toModel.unpack = y.toModel.unpack) : x = y := by
  have hy : y.isFinite = false := by
    show y.toModel.unpack.isFinite = false
    rw [← h]
    exact hx
  have hmodel : x.toModel = y.toModel := by
    rw [← pack_unpack_of_not_isFinite hx, ← pack_unpack_of_not_isFinite hy, h]
  cases x
  cases y
  exact congrArg Float.ofModel hmodel

/-- **The doubles that are not finite** are the one that is no number and the two
infinities. -/
theorem eq_of_not_isFinite {x : Float} (h : x.isFinite = false) :
    x = notANumber ∨ x = infinite false ∨ x = infinite true := by
  have hunpack : x.toModel.unpack.isFinite = false := h
  cases hx : x.toModel.unpack with
  | notANumber => exact Or.inl (eq_of_unpack_eq h hx)
  | infinity sign =>
      cases sign with
      | positive => exact Or.inr (Or.inl (eq_of_unpack_eq h hx))
      | negative => exact Or.inr (Or.inr (eq_of_unpack_eq h hx))
  | zero sign =>
      rw [hx] at hunpack
      cases hunpack
  | finite sign mantissa exponent pos =>
      rw [hx] at hunpack
      cases hunpack

end YarnPreview
