import Mathlib
import YarnPreview.Proofs.Bounds.Resolution
import YarnPreview.Proofs.Number.Monotone

/-!
# The middle and the length of bounds

Both are computed in doubles: the middle by a sum that is rounded and then halved, which may
round once more, and the length by a difference that is rounded.  This module says what is
left of the exact middle and length, over the whole range of doubles.

## Main statements

* `two_mul_exactValue_cases` — twice a double is a double, or out of range
* `Bounds.sum_between` — a rounded sum lies between twice the limits
* `Bounds.center_between`, `Bounds.isInf_center_iff` — the middle lies between the limits, or the
  sum overflows
* `Bounds.span_eq_zero_iff`, `Bounds.span_le_span` — the length of a point, and of a part
* `Bounds.center_and_span_exact` — all of this together

## Why the middle stays inside

Rounding keeps the order, and a double is not rounded at all.  Twice a limit is a double
unless it is out of range, so the rounded sum lies between twice the limits; half of that is
an exact number between the limits, and rounding it keeps it there.  At the least exponent a
half need not be a double, and it is this second rounding that may reach a limit.
-/

namespace YarnPreview

/-! ### Doubles, twice and apart -/

/-- **Twice a double is a double**, or out of range. -/
theorem two_mul_exactValue_cases {y : Float} (hy : y.isFinite = true) :
    (∃ z : Float, z.isFinite = true ∧ exactValue z = 2 * exactValue y) ∨
      overflowLimit ≤ |2 * exactValue y| := by
  obtain ⟨sign, magnitude, hshape, -⟩ := exists_wellShaped hy
  obtain ⟨n, unit, hscaled, rfl⟩ := hshape.exists_scaled
  have htwice : 2 * exactValue y = signFactor sign * (n * 2 ^ (unit + 1)) := by
    rw [exactValue, hshape.unpackedValue_eq, zpow_add_one₀ (by norm_num)]
    ring
  have hn : n ≤ 2 ^ 53 := mod_cast hscaled.lt.le
  rw [htwice]
  rcases lt_or_ge ((n : ℚ) * 2 ^ (unit + 1)) (2 ^ 1024) with hrange | hover
  · exact .inl (exists_exactValue_eq sign hn (by linarith [hscaled.least_le]) hrange)
  · right
    rw [abs_signFactor_mul, abs_of_nonneg (by positivity)]
    exact (sub_le_self _ (by positivity)).trans hover

namespace Nearest

variable {v : ℚ} {s y : Float}

/-- Twice a double stays below what is rounded from above it … -/
theorem two_mul_le (h : Nearest v s) (hs : s.isFinite = true) (hy : y.isFinite = true)
    (hle : 2 * exactValue y ≤ v) : 2 * exactValue y ≤ exactValue s := by
  rcases two_mul_exactValue_cases hy with ⟨z, hz, hvalue⟩ | hover
  · rw [← hvalue] at hle ⊢
    exact (le_iff_exactValue hz hs).mp ((nearest_self hz).mono h hle)
  · have hv := (abs_lt.mp (h.isFinite_iff.mp hs)).2
    have hrange := (abs_lt.mp (abs_exactValue_lt hs)).1
    rcases le_abs.mp hover with hover | hover <;> linarith

/-- … and above what is rounded from below it. -/
theorem le_two_mul (h : Nearest v s) (hs : s.isFinite = true) (hy : y.isFinite = true)
    (hle : v ≤ 2 * exactValue y) : exactValue s ≤ 2 * exactValue y := by
  rcases two_mul_exactValue_cases hy with ⟨z, hz, hvalue⟩ | hover
  · rw [← hvalue] at hle ⊢
    exact (le_iff_exactValue hs hz).mp (h.mono (nearest_self hz) hle)
  · have hv := (abs_lt.mp (h.isFinite_iff.mp hs)).1
    have hrange := (abs_lt.mp (abs_exactValue_lt hs)).2
    rcases le_abs.mp hover with hover | hover <;> linarith

end Nearest

/-- **Two doubles that differ** do so by a unit of the least exponent at least. -/
theorem least_le_sub_of_lt {x y : Float} (hx : x.isFinite = true) (hy : y.isFinite = true)
    (hlt : exactValue x < exactValue y) : (2 : ℚ) ^ (-1074 : ℤ) ≤ exactValue y - exactValue x := by
  have hmultiple : ∀ {z : Float}, z.isFinite = true →
      ∃ k : ℤ, exactValue z = k * 2 ^ (-1074 : ℤ) := by
    intro z hz
    obtain ⟨k, e, -, he, hvalue⟩ := exists_int_mul_zpow hz
    refine ⟨k * 2 ^ (e + 1074).toNat, ?_⟩
    have hsum : e = ((e + 1074).toNat : ℤ) + -1074 := by omega
    rw [hvalue]
    nth_rewrite 1 [hsum]
    rw [zpow_add₀ (by norm_num), zpow_natCast, Int.cast_mul, Int.cast_pow, Int.cast_ofNat, mul_assoc]
  obtain ⟨k, hk⟩ := hmultiple hx
  obtain ⟨l, hl⟩ := hmultiple hy
  have hpos : (0 : ℚ) < 2 ^ (-1074 : ℤ) := by positivity
  rw [hk, hl, mul_lt_mul_iff_left₀ hpos] at hlt
  have hone : (k : ℚ) + 1 ≤ l := mod_cast Int.add_one_le_iff.mpr (by exact_mod_cast hlt)
  rw [hk, hl, ← sub_mul]
  exact le_mul_of_one_le_left hpos.le (by linarith)

/-- **Equality of finite doubles is that of their exact values**, whatever the sign of a
zero. -/
theorem beq_iff_exactValue {x y : Float} (hx : x.isFinite = true) (hy : y.isFinite = true) :
    (x == y) = true ↔ exactValue x = exactValue y := by
  refine Iff.trans ?_ compare_eq_iff_eq
  show (x.toModel.unpack.compare y.toModel.unpack == some .eq) = true ↔ _
  rw [compare_unpack hx hy]
  simp

namespace Bounds

variable {b c : Bounds}

/-! ### The middle -/

/-- The sum of normal limits, rounded. -/
theorem nearest_sum (h : b.isNormal = true) :
    Nearest (exactValue b.max + exactValue b.min) (b.max + b.min) :=
  nearest_add ((isNormal_iff b).mp h).2.1 ((isNormal_iff b).mp h).1

/-- **The rounded sum lies between twice the limits**, unless it overflows. -/
theorem sum_between (h : b.isNormal = true) (hsum : (b.max + b.min).isFinite = true) :
    2 * exactValue b.min ≤ exactValue (b.max + b.min) ∧
      exactValue (b.max + b.min) ≤ 2 * exactValue b.max := by
  obtain ⟨hmin, hmax, hordered⟩ := (isNormal_iff b).mp h
  exact ⟨(nearest_sum h).two_mul_le hsum hmin (by linarith),
    (nearest_sum h).le_two_mul hsum hmax (by linarith)⟩

/-- Half of a sum that is finite, rounded. -/
theorem nearest_center (hsum : (b.max + b.min).isFinite = true) :
    Nearest (exactValue (b.max + b.min) / 2) b.center := by
  have htwo : (2.0 : Float).isFinite = true ∧ exactValue 2.0 = (2 : ℕ) :=
    exactValue_of_eq_ofNat (by decide +kernel) (by norm_num)
  exact nearest_div_of_exactValue ⟨hsum, rfl⟩ htwo two_ne_zero

/-- Half of an infinity is that infinity. -/
theorem center_of_not_isFinite (h : b.isNormal = true) (hsum : (b.max + b.min).isFinite = false) :
    b.center = b.max + b.min := by
  have hinfinite : b.max + b.min = infinite false ∨ b.max + b.min = infinite true := by
    cases nearest_sum h with
    | finite _ hfinite _ _ =>
        rw [hfinite] at hsum
        cases hsum
    | above _ hx => exact .inl hx
    | below _ hx => exact .inr hx
  rw [center]
  rcases hinfinite with hinfinite | hinfinite <;> rw [hinfinite] <;> decide

/-- **The middle lies between the limits**, unless the sum overflows. -/
theorem center_between (h : b.isNormal = true) (hsum : (b.max + b.min).isFinite = true) :
    b.min ≤ b.center ∧ b.center ≤ b.max := by
  obtain ⟨hmin, hmax, -⟩ := (isNormal_iff b).mp h
  obtain ⟨hlow, hhigh⟩ := sum_between h hsum
  have hcenter := nearest_center hsum
  exact ⟨(nearest_self hmin).mono hcenter (by linarith),
    hcenter.mono (nearest_self hmax) (by linarith)⟩

/-- Half of a finite sum is finite. -/
theorem isFinite_center (hsum : (b.max + b.min).isFinite = true) : b.center.isFinite = true := by
  rw [(nearest_center hsum).isFinite_iff, abs_div, abs_two]
  exact (half_le_self (abs_nonneg _)).trans_lt (abs_exactValue_lt hsum)

/-- The middle is a number or an infinity. -/
theorem isNaN_center (h : b.isNormal = true) : b.center.isNaN = false := by
  cases hsum : (b.max + b.min).isFinite with
  | true => exact (nearest_center hsum).isNaN_eq_false
  | false =>
      rw [center_of_not_isFinite h hsum]
      exact (nearest_sum h).isNaN_eq_false

/-- **The middle is infinite exactly when the sum is.** -/
theorem isInf_center_iff (h : b.isNormal = true) :
    b.center.isInf = true ↔ (b.max + b.min).isInf = true := by
  cases hsum : (b.max + b.min).isFinite with
  | true =>
      rw [(nearest_center hsum).isInf_iff, (nearest_sum h).isInf_iff, ← not_lt, ← not_lt,
        ← (nearest_center hsum).isFinite_iff, ← (nearest_sum h).isFinite_iff]
      exact iff_of_false (not_not.mpr (isFinite_center hsum)) (not_not.mpr hsum)
  | false => rw [center_of_not_isFinite h hsum]

/-! ### The length -/

/-- The difference of normal limits, rounded. -/
theorem nearest_span (h : b.isNormal = true) :
    Nearest (exactValue b.max - exactValue b.min) b.span :=
  nearest_sub ((isNormal_iff b).mp h).2.1 ((isNormal_iff b).mp h).1

/-- A length is not below zero. -/
theorem zero_le_span (h : b.isNormal = true) : 0.0 ≤ b.span := by
  obtain ⟨-, -, hordered⟩ := (isNormal_iff b).mp h
  have hzero : Nearest (exactValue 0.0) 0.0 := nearest_self rfl
  refine hzero.mono (nearest_span h) ?_
  rw [exactValue_zero]
  linarith

/-- **Only a point has no length**: a difference of doubles is never rounded away. -/
theorem span_eq_zero_iff (h : b.isNormal = true) :
    (b.span == 0.0) = true ↔ (b.min == b.max) = true := by
  obtain ⟨hmin, hmax, hordered⟩ := (isNormal_iff b).mp h
  rw [beq_iff_exactValue hmin hmax]
  rcases hordered.eq_or_lt with heq | hlt
  · have hspan : Nearest (exactValue 0.0) b.span := by
      rw [exactValue_zero, ← sub_eq_zero.mpr heq.symm]
      exact nearest_span h
    obtain ⟨hfinite, hvalue⟩ := (nearest_exactValue_iff rfl _).mp hspan
    exact iff_of_true ((beq_iff_exactValue hfinite rfl).mpr hvalue) heq
  · refine iff_of_false ?_ hlt.ne
    -- the least positive double is no larger than the length
    obtain ⟨least, hleast, hvalue⟩ : ∃ x : Float, x.isFinite = true ∧
        exactValue x = signFactor .positive * ((1 : ℕ) * 2 ^ (-1074 : ℤ)) :=
      exists_exactValue_eq .positive (by norm_num) le_rfl (by
        rw [Nat.cast_one, one_mul]
        exact (zpow_le_one_of_nonpos₀ (by norm_num) (by norm_num)).trans_lt
          (one_lt_pow₀ (by norm_num) (by norm_num)))
    rw [signFactor, one_mul, Nat.cast_one, one_mul] at hvalue
    have hle : least ≤ b.span := (nearest_self hleast).mono (nearest_span h)
      (hvalue ▸ least_le_sub_of_lt hmin hmax hlt)
    cases hfinite : b.span.isFinite with
    | true =>
        rw [beq_iff_exactValue hfinite rfl, exactValue_zero]
        rw [le_iff_exactValue hleast hfinite, hvalue] at hle
        have hpos : (0 : ℚ) < 2 ^ (-1074 : ℤ) := by positivity
        exact (hpos.trans_le hle).ne'
    | false =>
        rcases eq_of_not_isFinite hfinite with hspan | hspan | hspan <;> rw [hspan] <;> decide

/-- **A part is no longer than the whole.** -/
theorem span_le_span (h : b.isNormal = true) (hc : c.isNormal = true)
    (hmin : exactValue c.min ≤ exactValue b.min) (hmax : exactValue b.max ≤ exactValue c.max) :
    b.span ≤ c.span :=
  (nearest_span h).mono (nearest_span hc) (by linarith)

/-! ### Normalised bounds -/

/-- **The middle and the length of normalised bounds.**  The middle is a number or an infinity;
it is infinite exactly when the rounded sum of the limits is, which is when the exact sum is
out of range, and otherwise it lies between the limits.  The length is a number or an infinity
and not below zero; it is zero exactly when the limits are equal, and bounds inside others are
no longer than these. -/
theorem center_and_span_exact {entry : Value} (h : normalize? entry = some b) :
    (b.center.isNaN = false ∧
      (b.center.isInf = true ↔ (b.max + b.min).isInf = true) ∧
      ((b.max + b.min).isInf = true ↔
        overflowLimit ≤ |exactValue b.max + exactValue b.min|) ∧
      (b.center.isInf = false → b.min ≤ b.center ∧ b.center ≤ b.max)) ∧
      (b.span.isNaN = false ∧ 0.0 ≤ b.span ∧
        ((b.span == 0.0) = true ↔ (b.min == b.max) = true)) ∧
      ∀ (outer : Value) (c : Bounds), normalize? outer = some c →
        c.min ≤ b.min → b.max ≤ c.max → b.span ≤ c.span := by
  have hnormal := isNormal_of_normalize? h
  obtain ⟨hmin, hmax, -⟩ := (isNormal_iff b).mp hnormal
  refine ⟨⟨isNaN_center hnormal, isInf_center_iff hnormal, (nearest_sum hnormal).isInf_iff, ?_⟩,
    ⟨(nearest_span hnormal).isNaN_eq_false, zero_le_span hnormal, span_eq_zero_iff hnormal⟩, ?_⟩
  · intro hcenter
    refine center_between hnormal ?_
    rw [(nearest_sum hnormal).isFinite_iff, ← not_le, ← (nearest_sum hnormal).isInf_iff,
      ← isInf_center_iff hnormal, hcenter]
    exact Bool.false_ne_true
  · intro outer c hc hlow hhigh
    have hcnormal := isNormal_of_normalize? hc
    obtain ⟨hcmin, hcmax, -⟩ := (isNormal_iff c).mp hcnormal
    exact span_le_span hnormal hcnormal ((le_iff_exactValue hcmin hmin).mp hlow)
      ((le_iff_exactValue hmax hcmax).mp hhigh)

/-- Bounds between the two least positive doubles, inside bounds whose length overflows: half
of their sum is no double and is rounded to the upper limit. -/
theorem center_and_span_exact_least :
    normalize? (toRecord ⟨5e-324, 1e-323⟩) = some ⟨5e-324, 1e-323⟩ ∧
      normalize? (toRecord ⟨-1.7e308, 1.7e308⟩) = some ⟨-1.7e308, 1.7e308⟩ ∧
      (5e-324 ≤ center ⟨5e-324, 1e-323⟩ ∧ center ⟨5e-324, 1e-323⟩ ≤ 1e-323) ∧
      center ⟨5e-324, 1e-323⟩ = 1e-323 ∧
      span ⟨5e-324, 1e-323⟩ ≤ span ⟨-1.7e308, 1.7e308⟩ ∧
      (span ⟨-1.7e308, 1.7e308⟩).isInf = true := by
  have hleast : normalize? (toRecord ⟨5e-324, 1e-323⟩) = some ⟨5e-324, 1e-323⟩ := by
    decide +kernel
  have hwidest : normalize? (toRecord ⟨-1.7e308, 1.7e308⟩) = some ⟨-1.7e308, 1.7e308⟩ := by
    decide +kernel
  obtain ⟨⟨-, -, -, hbetween⟩, -, hpart⟩ := center_and_span_exact hleast
  exact ⟨hleast, hwidest, hbetween (by decide +kernel), by decide +kernel,
    hpart _ _ hwidest (by decide +kernel) (by decide +kernel), by decide +kernel⟩

end Bounds

end YarnPreview
