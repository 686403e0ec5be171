import Mathlib
import YarnPreview.Proofs.Number.Operations

/-!
# Whole numbers among the doubles

Past fifty-three bits not every whole number is a double.  This module says which one is the
nearest, how that depends on the places behind the fifty-third, and when the places behind a
number that was rounded already still matter.

## Main definitions

* `LowerTie` — a whole number halfway between two doubles, the lower of which is even
* `Whole` — a double that is a whole number, or the infinity above them all

## Main statements

* `RoundsTo.add_iff` — rounding does not look past the whole part, except at a tie
* `nearest_natCast_iff` — the nearest double to a whole number
* `nearest_more_places_iff` — more places after the rounded ones
-/

namespace YarnPreview

/-! ### Ties -/

/-- Rounding a quotient, without the quotient. -/
theorem roundsTo_div_iff {a : ℚ} {half n : ℕ} (hhalf : 0 < half) :
    RoundsTo (a / (2 * half)) n ↔
      |2 * half * n - a| < half ∨ |2 * half * n - a| = half ∧ Even n := by
  have hpos : (0 : ℚ) < half := mod_cast hhalf
  have hquotient : |(n : ℚ) - a / (2 * half)| = |2 * half * n - a| / (2 * half) := by
    rw [← abs_of_pos (show (0 : ℚ) < 2 * half by positivity), ← abs_div,
      abs_of_pos (show (0 : ℚ) < 2 * half by positivity)]
    congr 1
    field_simp
  rw [RoundsTo, hquotient, div_lt_iff₀ (by positivity), div_eq_iff (by positivity)]
  ring_nf

/-- **Rounding does not look past the whole part**, unless that is a tie which went down. -/
theorem RoundsTo.add_iff {whole half n : ℕ} {θ : ℚ} (hhalf : 0 < half)
    (h : RoundsTo (whole / (2 * half)) n) (hlow : 0 ≤ θ) (hhigh : θ < 1) :
    RoundsTo ((whole + θ) / (2 * half)) n ↔
      ¬ (0 < θ ∧ Even n ∧ whole = (2 * n + 1) * half) := by
  rw [roundsTo_div_iff hhalf] at h ⊢
  have hone : (1 : ℚ) ≤ half := mod_cast hhalf
  constructor
  · rintro hrounds ⟨hpos, -, rfl⟩
    have hfar : |2 * (half : ℚ) * n - (((2 * n + 1) * half : ℕ) + θ)| = half + θ := by
      rw [abs_of_nonpos (by push_cast; linarith)]
      push_cast
      ring
    rw [hfar] at hrounds
    rcases hrounds with hlt | ⟨heq, -⟩ <;> linarith
  · intro hkept
    rcases hlow.eq_or_lt with rfl | hpos
    · rwa [add_zero]
    left
    rcases h with hlt | ⟨heq, heven⟩
    · -- strictly nearer than half: by a whole one, since all is whole here
      have hint : |2 * (half : ℤ) * n - whole| < half := mod_cast hlt
      obtain ⟨hleft, hright⟩ := abs_lt.mp hint
      have hleft' : (-(half : ℚ)) + 1 ≤ 2 * half * n - whole := by
        exact_mod_cast Int.add_one_le_iff.mpr hleft
      have hright' : 2 * (half : ℚ) * n - whole < half := mod_cast hright
      rw [abs_lt]
      constructor <;> linarith
    · rcases (abs_eq (by linarith)).mp heq with hup | hdown
      · rw [abs_lt]
        constructor <;> linarith
      · refine absurd ⟨hpos, heven, ?_⟩ hkept
        have hwhole : (whole : ℚ) = ((2 * n + 1) * half : ℕ) := by
          push_cast
          linarith
        exact_mod_cast hwhole

/-- **A tie that goes down**: a whole number halfway between two doubles, the lower of which is
even. -/
def LowerTie (n : ℕ) : Prop :=
  ∃ lower places : ℕ, Even lower ∧ 2 ^ 52 ≤ lower ∧ lower < 2 ^ 53 ∧
    n = (2 * lower + 1) * 2 ^ places

/-! ### Doubles that are whole numbers -/

/-- **A double that is a whole number**, or the infinity above them all. -/
inductive Whole (n : ℕ) (x : Float) : Prop
  | finite (hrange : n < 2 ^ 1024) (hfinite : x.isFinite = true) (hvalue : exactValue x = n)
  | infinite (hrange : 2 ^ 1024 ≤ n) (hx : x = infinite false)

/-- A whole number in units of its last place. -/
theorem scaled_natCast {v unit : ℕ} (hlow : 2 ^ 52 * 2 ^ unit ≤ v)
    (hhigh : v < 2 ^ 53 * 2 ^ unit) : Scaled (v / 2 ^ unit) unit := by
  have hpos : (0 : ℚ) < 2 ^ unit := by positivity
  refine ⟨by positivity, ?_, by omega, .inl ?_⟩
  · rw [div_lt_iff₀ hpos]
    exact_mod_cast hhigh
  · rw [le_div_iff₀ hpos]
    exact_mod_cast hlow

/-- **The nearest double to a whole number is a whole number.** -/
theorem nearest_natCast_iff {v unit n : ℕ} (hscaled : Scaled (v / 2 ^ unit) unit)
    (hn : RoundsTo (v / 2 ^ unit) n) (x : Float) : Nearest v x ↔ Whole (n * 2 ^ unit) x := by
  have hv : (v : ℚ) = signFactor .positive * (v / 2 ^ unit * 2 ^ (unit : ℤ)) := by
    rw [signFactor, one_mul, zpow_natCast]
    field_simp
  have hcast : (n : ℚ) * 2 ^ (unit : ℤ) = (n * 2 ^ unit : ℕ) := by
    rw [zpow_natCast]
    push_cast
    rfl
  have hlt : ((n * 2 ^ unit : ℕ) : ℚ) < 2 ^ 1024 ↔ n * 2 ^ unit < 2 ^ 1024 := by
    exact_mod_cast Iff.rfl
  have hle : (2 : ℚ) ^ 1024 ≤ (n * 2 ^ unit : ℕ) ↔ 2 ^ 1024 ≤ n * 2 ^ unit := by
    exact_mod_cast Iff.rfl
  rw [hv, nearest_iff .positive hscaled hn, hcast, hlt, hle, signFactor, one_mul]
  constructor
  · rintro (⟨hrange, hfinite, hvalue⟩ | ⟨hrange, hx⟩)
    · exact .finite hrange hfinite hvalue
    · exact .infinite hrange hx
  · rintro (⟨hrange, hfinite, hvalue⟩ | ⟨hrange, hx⟩)
    · exact .inl ⟨hrange, hfinite, hvalue⟩
    · exact .inr ⟨hrange, hx⟩

/-- Fifty-three bits are never rounded. -/
theorem nearest_natCast_of_lt {v : ℕ} (h : v < 2 ^ 53) (x : Float) :
    Nearest v x ↔ x.isFinite = true ∧ exactValue x = v := by
  obtain ⟨hfinite, hvalue⟩ := exactValue_ofNat h
  rw [← hvalue, nearest_exactValue_iff hfinite]

/-- Less than half a unit of the last place is rounded away. -/
theorem nearest_add_small_iff {n unit d : ℕ} (hlow : 2 ^ 52 ≤ n) (hhigh : n < 2 ^ 53)
    (hsmall : 2 * d < 2 ^ unit) (x : Float) :
    Nearest (n * 2 ^ unit + d : ℕ) x ↔ Whole (n * 2 ^ unit) x := by
  refine nearest_natCast_iff (scaled_natCast ?_ ?_) (.inl ?_) x
  · exact (Nat.mul_le_mul_right _ hlow).trans (Nat.le_add_right _ _)
  · calc n * 2 ^ unit + d < n * 2 ^ unit + 2 ^ unit := by omega
      _ = (n + 1) * 2 ^ unit := by ring
      _ ≤ 2 ^ 53 * 2 ^ unit := Nat.mul_le_mul_right _ hhigh
  · have hsmall' : (2 : ℚ) * d < 2 ^ unit := mod_cast hsmall
    have hdistance : (n : ℚ) - (n * 2 ^ unit + d : ℕ) / 2 ^ unit = -(d / 2 ^ unit) := by
      push_cast
      field_simp
      ring
    rw [hdistance, abs_neg, abs_of_nonneg (by positivity), div_lt_iff₀ (by positivity)]
    linarith

/-- Beyond the range of doubles. -/
theorem overflowLimit_le_natCast {v : ℕ} (h : 2 ^ 1024 ≤ v) : overflowLimit ≤ v := by
  have hcast : (2 : ℚ) ^ 1024 ≤ v := mod_cast h
  exact (sub_le_self _ (by positivity)).trans hcast

/-- Beyond the range of doubles the nearest one is the infinity. -/
theorem Nearest.eq_infinite {v : ℕ} {x : Float} (h : Nearest v x) (hv : 2 ^ 1024 ≤ v) :
    x = infinite false := by
  have hlimit := overflowLimit_le_natCast hv
  cases h with
  | finite hrange _ _ _ => exact absurd ((le_abs_self _).trans_lt hrange) (not_lt.mpr hlimit)
  | above _ hx => exact hx
  | below hrange _ => linarith [overflowLimit_pos]

/-- A whole number past fifty-three bits, by its places. -/
theorem exists_places {n : ℕ} (h : 2 ^ 53 ≤ n) :
    ∃ places, 2 ^ 52 * 2 ^ (places + 1) ≤ n ∧ n < 2 ^ 53 * 2 ^ (places + 1) := by
  have hne : n ≠ 0 := by omega
  have hlog : 53 ≤ n.log2 := (Nat.le_log2 hne).mpr h
  refine ⟨n.log2 - 53, ?_, ?_⟩
  · rw [← pow_add, show 52 + (n.log2 - 53 + 1) = n.log2 by omega]
    exact Nat.log2_self_le hne
  · rw [← pow_add, show 53 + (n.log2 - 53 + 1) = n.log2 + 1 by omega]
    exact Nat.lt_log2_self

/-- There is one way to do so. -/
theorem log2_of_places {n places : ℕ} (hlow : 2 ^ 52 * 2 ^ (places + 1) ≤ n)
    (hhigh : n < 2 ^ 53 * 2 ^ (places + 1)) : n.log2 = 52 + (places + 1) := by
  rw [← pow_add] at hlow hhigh
  have hpos : 0 < 2 ^ (52 + (places + 1)) := by positivity
  rw [Nat.log2_eq_iff (by omega), show 52 + (places + 1) + 1 = 53 + (places + 1) by omega]
  exact ⟨hlow, hhigh⟩

/-- A tie lies past fifty-three bits. -/
theorem LowerTie.le {n : ℕ} (h : LowerTie n) : 2 ^ 53 ≤ n := by
  obtain ⟨lower, places, -, hlow, -, rfl⟩ := h
  exact le_trans (by omega) (Nat.le_mul_of_pos_right (2 * lower + 1) (by positivity))

/-- **A tie that goes down, by its places** and by what it is rounded to. -/
theorem lowerTie_iff {whole n places : ℕ} (hlow : 2 ^ 52 * 2 ^ (places + 1) ≤ whole)
    (hhigh : whole < 2 ^ 53 * 2 ^ (places + 1))
    (hn : RoundsTo (whole / 2 ^ (places + 1)) n) :
    LowerTie whole ↔ Even n ∧ whole = (2 * n + 1) * 2 ^ places := by
  constructor
  · rintro ⟨lower, places', heven, hlower, hlower', htie⟩
    have hplaces : places' = places := by
      have hlog : whole.log2 = 52 + (places' + 1) := by
        refine log2_of_places ?_ ?_
        · rw [htie, pow_succ 2 places', mul_comm _ 2, ← mul_assoc]
          exact Nat.mul_le_mul_right _ (by omega)
        · rw [htie, pow_succ 2 places', mul_comm _ 2, ← mul_assoc]
          exact Nat.mul_lt_mul_of_pos_right (by omega) (by positivity)
      have hlog' := log2_of_places hlow hhigh
      omega
    subst hplaces
    have hrounds : RoundsTo (whole / 2 ^ (places' + 1)) lower := by
      refine .inr ⟨?_, heven⟩
      have hhalf : (lower : ℚ) - whole / 2 ^ (places' + 1) = -(1 / 2) := by
        rw [htie, pow_succ]
        push_cast
        field_simp
        ring
      rw [hhalf, abs_neg]
      norm_num
    rw [hn.unique hrounds]
    exact ⟨heven, htie⟩
  · rintro ⟨heven, htie⟩
    obtain ⟨-, hfull⟩ := (scaled_natCast hlow hhigh).le_of_roundsTo hn
    refine ⟨n, places, heven, hfull.resolve_right (by omega), ?_, htie⟩
    rw [htie, pow_succ 2 places, mul_comm _ 2, ← mul_assoc] at hhigh
    have hodd := Nat.lt_of_mul_lt_mul_right hhigh
    omega

/-- A double is one whole number at most. -/
theorem Whole.unique {m n : ℕ} {x : Float} (hm : Whole m x) (hn : Whole n x)
    (hrange : m < 2 ^ 1024) : m = n := by
  cases hm with
  | infinite hrange' _ => exact absurd hrange (not_lt.mpr hrange')
  | finite _ hfinite hvalue =>
      cases hn with
      | finite _ _ hvalue' => exact_mod_cast hvalue.symm.trans hvalue'
      | infinite _ hx =>
          rw [hx] at hfinite
          exact absurd hfinite (by decide)

/-- Two numbers of the same fifty-three places lie on the same side of a power of two. -/
theorem two_pow_le_mul_two_pow {v n unit limit : ℕ} (hn : 2 ^ 52 ≤ n)
    (hv : v < 2 ^ 53 * 2 ^ unit) (h : 2 ^ limit ≤ v) : 2 ^ limit ≤ n * 2 ^ unit := by
  have hlimit : limit < 53 + unit := by
    rw [← pow_add] at hv
    exact (Nat.pow_lt_pow_iff_right (by norm_num)).mp (h.trans_lt hv)
  calc 2 ^ limit ≤ 2 ^ (52 + unit) := Nat.pow_le_pow_right two_pos (by omega)
    _ = 2 ^ 52 * 2 ^ unit := pow_add 2 52 unit
    _ ≤ n * 2 ^ unit := Nat.mul_le_mul_right _ hn

section MorePlaces

variable {whole n rest places extra : ℕ}

/-- More places do not make a number longer than its fifty-three. -/
theorem more_places_lt (hhigh : whole < 2 ^ 53 * 2 ^ (places + 1)) (hrest : rest < 2 ^ extra) :
    whole * 2 ^ extra + rest < 2 ^ 53 * 2 ^ (places + 1 + extra) := by
  rw [pow_add 2 (places + 1), ← mul_assoc]
  calc whole * 2 ^ extra + rest < whole * 2 ^ extra + 2 ^ extra := by omega
    _ = (whole + 1) * 2 ^ extra := by ring
    _ ≤ 2 ^ 53 * 2 ^ (places + 1) * 2 ^ extra := Nat.mul_le_mul_right _ hhigh

theorem scaled_more_places (hlow : 2 ^ 52 * 2 ^ (places + 1) ≤ whole)
    (hhigh : whole < 2 ^ 53 * 2 ^ (places + 1)) (hrest : rest < 2 ^ extra) :
    Scaled ((whole * 2 ^ extra + rest : ℕ) / 2 ^ (places + 1 + extra))
      (places + 1 + extra : ℕ) := by
  refine scaled_natCast ?_ (more_places_lt hhigh hrest)
  rw [pow_add 2 (places + 1), ← mul_assoc]
  exact (Nat.mul_le_mul_right _ hlow).trans (Nat.le_add_right _ _)

/-- **What stands in further places changes the rounding in one case only**: it is not zero,
and the places before it are a tie that goes down. -/
theorem roundsTo_more_places_iff (hlow : 2 ^ 52 * 2 ^ (places + 1) ≤ whole)
    (hhigh : whole < 2 ^ 53 * 2 ^ (places + 1))
    (hn : RoundsTo (whole / 2 ^ (places + 1)) n) (hrest : rest < 2 ^ extra) :
    RoundsTo ((whole * 2 ^ extra + rest : ℕ) / 2 ^ (places + 1 + extra)) n ↔
      ¬ (0 < rest ∧ LowerTie whole) := by
  have hpower : (0 : ℚ) < 2 ^ extra := by positivity
  have hquotient : ((whole * 2 ^ extra + rest : ℕ) : ℚ) / 2 ^ (places + 1 + extra)
      = (whole + rest / 2 ^ extra) / (2 * (2 ^ places : ℕ)) := by
    push_cast
    rw [pow_add, pow_succ]
    field_simp
  have hhalf : (whole : ℚ) / 2 ^ (places + 1) = whole / (2 * (2 ^ places : ℕ)) := by
    push_cast
    rw [pow_succ, mul_comm]
  have hpos : (0 : ℚ) < rest / 2 ^ extra ↔ 0 < rest := by
    rw [lt_div_iff₀ hpower, zero_mul]
    exact_mod_cast Iff.rfl
  have hlt : (rest : ℚ) / 2 ^ extra < 1 := by
    rw [div_lt_one hpower]
    exact_mod_cast hrest
  rw [lowerTie_iff hlow hhigh hn]
  rw [hhalf] at hn
  rw [hquotient, hn.add_iff (by positivity) (by positivity) hlt, hpos]

/-- **More places after the rounded ones.**  Reading on with zeros in these places loses what
stands there in one case only. -/
theorem nearest_more_places_iff {x : Float} (hlow : 2 ^ 52 * 2 ^ (places + 1) ≤ whole)
    (hhigh : whole < 2 ^ 53 * 2 ^ (places + 1))
    (hn : RoundsTo (whole / 2 ^ (places + 1)) n) (hrest : rest < 2 ^ extra)
    (hx : Whole (n * 2 ^ (places + 1 + extra)) x) :
    Nearest (whole * 2 ^ extra + rest : ℕ) x ↔
      ¬ (LowerTie whole ∧ 0 < rest ∧ whole * 2 ^ extra + rest < 2 ^ 1024) := by
  have hscaled := scaled_more_places hlow hhigh hrest
  have hkept := roundsTo_more_places_iff hlow hhigh hn hrest
  by_cases hlost : 0 < rest ∧ LowerTie whole
  · obtain ⟨hpos, htie⟩ := hlost
    by_cases hrange : whole * 2 ^ extra + rest < 2 ^ 1024
    · refine iff_of_false (fun hnearest => ?_) (fun h => h ⟨htie, hpos, hrange⟩)
      -- the nearest double is another whole number
      have hle : n * 2 ^ (places + 1 + extra) ≤ whole * 2 ^ extra + rest := by
        rw [((lowerTie_iff hlow hhigh hn).mp htie).2, pow_add, pow_succ]
        nlinarith [Nat.two_pow_pos places, Nat.two_pow_pos extra]
      obtain ⟨n', hn'⟩ := RoundsTo.exists_of_nonneg hscaled.nonneg
      have hother := (nearest_natCast_iff hscaled hn' x).mp hnearest
      have heq : n = n' :=
        Nat.eq_of_mul_eq_mul_right (by positivity) (hx.unique hother (hle.trans_lt hrange))
      exact hkept.mp (heq ▸ hn') ⟨hpos, htie⟩
    · -- beyond the range there is only the infinity to read
      have hfull : 2 ^ 52 ≤ n :=
        ((scaled_natCast hlow hhigh).le_of_roundsTo hn).2.resolve_right (by omega)
      have hover := two_pow_le_mul_two_pow hfull (more_places_lt hhigh hrest) (not_lt.mp hrange)
      refine iff_of_true (.above (overflowLimit_le_natCast (not_lt.mp hrange)) ?_)
        fun h => hrange h.2.2
      cases hx with
      | finite hrange' _ _ => exact absurd hrange' (not_lt.mpr hover)
      | infinite _ hx => exact hx
  · refine iff_of_true ((nearest_natCast_iff hscaled (hkept.mpr hlost) x).mpr hx) ?_
    rintro ⟨htie, hpos, -⟩
    exact hlost ⟨hpos, htie⟩

end MorePlaces

end YarnPreview
