import Mathlib
import YarnPreview.FileSize
import YarnPreview.Proofs.Number.Decimals

/-!
# Sizes as shown

A size is shown in the unit that its magnitude calls for, with the decimals of that unit.  On
the way there the number of bytes is divided, multiplied and divided again in doubles.  This
module says what is shown for a whole number of bytes, without any of that, and that a larger
size is never shown as a smaller one, within a unit or across units.

## Main definitions

* `FileSize.denoted` — the size that is denoted, in bytes
* `FileSize.ShownAs` — a whole number of bytes as it is to be shown, with the text

## Main statements

* `FileSize.countOf?_mono` — within a unit, the larger size has the larger count
* `FileSize.denoted_mono` — the larger size is denoted as the larger one, whatever the units
* `FileSize.shownAs_ofNat` — what is shown for a whole number of bytes
* `uploadRejection?_eq_some_iff` — when an upload is refused, and the words of it
* `FileSize.shown_exact` — all of this together

## Why no unit overtakes the next

Each step from the bytes to the shown count keeps the order, so the counts of a unit are pinned
by those at its two ends.  Bytes below a kilobyte are shown as 1024 B at most, and kilobytes
below a megabyte as 1024.0 kB at most; a kilobyte and a megabyte are shown as themselves.

## Why the second division does no harm

The tenths of a kilobyte are a whole number, and a tenth of it is in general no double.  But
up to 1024.0 kB it is moved by less than 2 ^ -6, and so its decimals are the tenths again.
-/

namespace YarnPreview

namespace FileSize

variable {x y : Float} {size size' : FileSize}

/-! ### The specification -/

/-- **The size that is denoted**, in bytes: the printed number times the unit. -/
def denoted (size : FileSize) : ℚ :=
  size.count / 10 ^ size.unit.places * size.unit.bytes

/-- **A whole number of bytes as it is to be shown**, with the text: the nearest number of
bytes, of tenths of a kilobyte with a half going up, or of hundredths of a megabyte with a half
going to the even neighbour. -/
inductive ShownAs (n : ℕ) : FileSize → String → Prop
  | byte (h : n < 1024) : ShownAs n ⟨n, .byte⟩ (toString n ++ " B")
  | kilobyte {k : ℕ} (hlow : 1024 ≤ n) (hhigh : n < 2 ^ 20)
      (hk : Tie.up.Rounds (10 * n / 1024) k) :
      ShownAs n ⟨k, .kilobyte⟩ (toString (k / 10) ++ "." ++ toString (k % 10) ++ " kB")
  | megabyte {c : ℕ} (h : 2 ^ 20 ≤ n) (hc : Tie.toEven.Rounds (100 * n / 2 ^ 20) c) :
      ShownAs n ⟨c, .megabyte⟩ (toString (c / 100) ++ "." ++
        (toString (c % 100 / 10) ++ toString (c % 10)) ++ " MB")

/-- The text of the specification is the one that is written. -/
theorem ShownAs.text_eq {n : ℕ} {text : String} (h : ShownAs n size text) : size.text = text := by
  cases h with
  | byte _ =>
      rw [FileSize.text, String.append_assoc]
      show toString (n / 1) ++ " B" = _
      rw [Nat.div_one]
  | kilobyte _ _ _ =>
      rw [FileSize.text, String.append_assoc, ← fixedPoint_one]
      rfl
  | megabyte _ _ =>
      rw [FileSize.text, String.append_assoc, ← fixedPoint_two]
      rfl

/-! ### The divisions -/

theorem exactValue_kilo : kilo.isFinite = true ∧ exactValue kilo = 2 ^ 10 := by
  have hvalue := exactValue_of_eq_ofNat (by decide +kernel : kilo = Float.ofNat (2 ^ 10))
    (by norm_num)
  rwa [Nat.cast_pow, Nat.cast_ofNat] at hvalue

theorem exactValue_mega : mega.isFinite = true ∧ exactValue mega = 2 ^ 20 := by
  have hvalue := exactValue_of_eq_ofNat (by decide +kernel : mega = Float.ofNat (2 ^ 20))
    (by norm_num)
  rwa [Nat.cast_pow, Nat.cast_ofNat] at hvalue

theorem exactValue_ten : (10.0 : Float).isFinite = true ∧ exactValue 10.0 = 10 :=
  exactValue_of_eq_ofNat (by decide +kernel : (10.0 : Float) = Float.ofNat 10) (by norm_num)

/-- Bytes in kilobytes, rounded … -/
theorem nearest_div_kilo (hx : x.isFinite = true) :
    Nearest (exactValue x / 2 ^ 10) (x / kilo) :=
  nearest_div_of_exactValue ⟨hx, rfl⟩ exactValue_kilo (by norm_num)

/-- … and in megabytes. -/
theorem nearest_div_mega (hx : x.isFinite = true) :
    Nearest (exactValue x / 2 ^ 20) (x / mega) :=
  nearest_div_of_exactValue ⟨hx, rfl⟩ exactValue_mega (by norm_num)

/-- Ten times a double, rounded. -/
theorem nearest_mul_ten (hx : x.isFinite = true) : Nearest (exactValue x * 10) (x * 10.0) :=
  nearest_mul_of_exactValue ⟨hx, rfl⟩ exactValue_ten

/-- A tenth of a whole number, rounded. -/
theorem nearest_ofNat_div_ten {k : ℕ} (hk : k ≤ 2 ^ 53) :
    Nearest (k / 10) (Float.ofNat k / 10.0) :=
  nearest_div_of_exactValue (exactValue_ofNat_of_le hk) exactValue_ten (by norm_num)

theorem isFinite_div_kilo (hx : x.isFinite = true) : (x / kilo).isFinite = true :=
  (nearest_div_kilo hx).isFinite_iff.mpr (abs_exactValue_div_lt hx (by norm_num))

theorem isFinite_div_mega (hx : x.isFinite = true) : (x / mega).isFinite = true :=
  (nearest_div_mega hx).isFinite_iff.mpr (abs_exactValue_div_lt hx (by norm_num))

/-! ### The order within a unit -/

/-- The larger size has more tenths of a kilobyte. -/
theorem tenths_mono {j k : ℕ} (hj : decimals? .up 0 (x / kilo * 10.0) = some j)
    (hk : decimals? .up 0 (y / kilo * 10.0) = some k) (hx : x.isFinite = true)
    (hy : y.isFinite = true) (hnonneg : 0 ≤ exactValue x)
    (hle : exactValue x ≤ exactValue y) : j ≤ k := by
  have hxkilo := isFinite_div_kilo hx
  have hykilo := isFinite_div_kilo hy
  have hxten := (decimals?_eq_some_iff.mp hj).1
  have hyten := (decimals?_eq_some_iff.mp hk).1
  have hquotients : exactValue (x / kilo) ≤ exactValue (y / kilo) :=
    (nearest_div_kilo hx).exactValue_le (nearest_div_kilo hy) hxkilo hykilo (by linarith)
  have hquotient : 0 ≤ exactValue (x / kilo) :=
    (nearest_div_kilo hx).exactValue_nonneg hxkilo (by linarith)
  refine decimals?_mono hj hk ?_ ?_
  · exact (nearest_mul_ten hxkilo).exactValue_nonneg hxten (by linarith)
  · exact (nearest_mul_ten hxkilo).exactValue_le (nearest_mul_ten hykilo) hxten hyten (by linarith)

/-- **Within a unit, the larger size has the larger count.**  In kilobytes this is asked of
sizes up to a megabyte. -/
theorem countOf?_mono {unit : SizeUnit} {c d : ℕ} (hc : countOf? x unit = some c)
    (hd : countOf? y unit = some d) (hx : x.isFinite = true) (hy : y.isFinite = true)
    (hnonneg : 0 ≤ exactValue x) (hle : exactValue x ≤ exactValue y)
    (hrange : unit = .kilobyte → exactValue y ≤ 2 ^ 20) : c ≤ d := by
  cases unit with
  | byte => exact decimals?_mono hc hd hnonneg hle
  | megabyte =>
      have hxmega := isFinite_div_mega hx
      have hymega := isFinite_div_mega hy
      refine decimals?_mono hc hd ?_ ?_
      · exact (nearest_div_mega hx).exactValue_nonneg hxmega (by linarith)
      · exact (nearest_div_mega hx).exactValue_le (nearest_div_mega hy) hxmega hymega
          (by linarith)
  | kilobyte =>
      obtain ⟨j, hj, hjc⟩ := Option.bind_eq_some_iff.mp hc
      obtain ⟨k, hk, hkd⟩ := Option.bind_eq_some_iff.mp hd
      have hjk : j ≤ k := tenths_mono hj hk hx hy hnonneg hle
      have hend : decimals? .up 0 (mega / kilo * 10.0) = some 10240 := by decide +kernel
      have hk' : k ≤ 10240 := by
        refine tenths_mono hk hend hy exactValue_mega.1 (hnonneg.trans hle) ?_
        rw [exactValue_mega.2]
        exact hrange rfl
      have hjtenth := nearest_ofNat_div_ten (by omega : j ≤ 2 ^ 53)
      have hktenth := nearest_ofNat_div_ten (by omega : k ≤ 2 ^ 53)
      have hjfinite := (decimals?_eq_some_iff.mp hjc).1
      have hkfinite := (decimals?_eq_some_iff.mp hkd).1
      have hjk' : (j : ℚ) ≤ k := mod_cast hjk
      refine decimals?_mono hjc hkd ?_ ?_
      · exact hjtenth.exactValue_nonneg hjfinite (by positivity)
      · exact hjtenth.exactValue_le hktenth hjfinite hkfinite (by linarith)

/-! ### The order across units -/

/-- The sizes, in bytes, that are shown in a unit. -/
def Covers : SizeUnit → ℚ → Prop
  | .byte, v => v < 2 ^ 10
  | .kilobyte, v => 2 ^ 10 ≤ v ∧ v < 2 ^ 20
  | .megabyte, v => 2 ^ 20 ≤ v

/-- A unit that covers a size is the only one. -/
theorem Covers.unique {unit unit' : SizeUnit} {v : ℚ} (h : Covers unit v) (h' : Covers unit' v) :
    unit = unit' := by
  cases unit <;> cases unit' <;> simp only [Covers] at h h' <;> grind

/-- The unit that is chosen covers the size. -/
theorem covers_unitOf (hx : x.isFinite = true) : Covers (unitOf x) (exactValue x) := by
  obtain ⟨hkilo, hkilovalue⟩ := exactValue_kilo
  obtain ⟨hmega, hmegavalue⟩ := exactValue_mega
  rw [unitOf]
  simp only [lt_iff_exactValue hx hkilo, le_iff_exactValue hmega hx, hkilovalue, hmegavalue]
  split_ifs with hbyte hfull
  · exact hbyte
  · exact hfull
  · exact ⟨not_lt.mp hbyte, not_le.mp hfull⟩

/-- **What is shown of a double**: a count in the unit that covers it, if it is finite and not
negative. -/
theorem ofBytes?_eq_some_iff : ofBytes? x = some size ↔
    x.isFinite = true ∧ 0 ≤ exactValue x ∧ Covers size.unit (exactValue x) ∧
      countOf? x size.unit = some size.count := by
  rw [ofBytes?]
  by_cases hx : x.isFinite = true
  · have hzero : x < 0.0 ↔ ¬ 0 ≤ exactValue x := by
      rw [lt_iff_exactValue hx rfl, exactValue_zero, not_le]
    by_cases hnonneg : 0 ≤ exactValue x
    · have hunit : unitOf x = size.unit ↔ Covers size.unit (exactValue x) :=
        ⟨fun h => h ▸ covers_unitOf hx, (covers_unitOf hx).unique⟩
      simp only [hx, hzero, hnonneg, ← hunit, Bool.not_true, not_true_eq_false, decide_false,
        Bool.or_self, Bool.false_eq_true, if_false, Option.map_eq_some_iff, true_and]
      constructor
      · rintro ⟨count, hcount, rfl⟩
        exact ⟨rfl, hcount⟩
      · rintro ⟨hunit, hcount⟩
        exact ⟨size.count, hunit ▸ hcount, by rw [hunit]⟩
    · simp [hx, hzero, hnonneg]
  · simp [hx]

/-- **The ends of the units.**  A size is denoted as no more than a kilobyte while it is shown
in bytes, and in kilobytes as no less than one and no more than a megabyte; in megabytes it is
denoted as no less than one. -/
theorem denoted_bounds (h : ofBytes? x = some size) :
    (size.unit = .byte → size.denoted ≤ 2 ^ 10) ∧
      (size.unit = .kilobyte → 2 ^ 10 ≤ size.denoted ∧ size.denoted ≤ 2 ^ 20) ∧
      (size.unit = .megabyte → 2 ^ 20 ≤ size.denoted) := by
  obtain ⟨hx, hnonneg, hcovers, hcount⟩ := ofBytes?_eq_some_iff.mp h
  obtain ⟨hkilo, hkilovalue⟩ := exactValue_kilo
  obtain ⟨hmega, hmegavalue⟩ := exactValue_mega
  obtain ⟨count, unit⟩ := size
  refine ⟨?_, ?_, ?_⟩ <;> rintro rfl
  · have hend : countOf? kilo .byte = some 1024 := by decide +kernel
    have hle := countOf?_mono hcount hend hx hkilo hnonneg
      (by rw [hkilovalue]; exact le_of_lt hcovers) (by rintro ⟨⟩)
    have hle' : (count : ℚ) ≤ 1024 := mod_cast hle
    norm_num [denoted, SizeUnit.places, SizeUnit.bytes]
    linarith
  · obtain ⟨hlow, hhigh⟩ := hcovers
    have hstart : countOf? kilo .kilobyte = some 10 := by decide +kernel
    have hend : countOf? mega .kilobyte = some 10240 := by decide +kernel
    have hge := countOf?_mono hstart hcount hkilo hx (by rw [hkilovalue]; norm_num)
      (by rwa [hkilovalue]) fun _ => hhigh.le
    have hle := countOf?_mono hcount hend hx hmega hnonneg (by rw [hmegavalue]; exact hhigh.le)
      fun _ => hmegavalue.le
    have hge' : (10 : ℚ) ≤ count := mod_cast hge
    have hle' : (count : ℚ) ≤ 10240 := mod_cast hle
    constructor <;> norm_num [denoted, SizeUnit.places, SizeUnit.bytes] <;> linarith
  · have hstart : countOf? mega .megabyte = some 100 := by decide +kernel
    have hge := countOf?_mono hstart hcount hmega hx (by rw [hmegavalue]; norm_num)
      (by rwa [hmegavalue]) (by rintro ⟨⟩)
    have hge' : (100 : ℚ) ≤ count := mod_cast hge
    norm_num [denoted, SizeUnit.places, SizeUnit.bytes]
    linarith

/-- **The larger size is denoted as the larger one**, whatever the units. -/
theorem denoted_mono (h : ofBytes? x = some size) (h' : ofBytes? y = some size')
    (hle : exactValue x ≤ exactValue y) : size.denoted ≤ size'.denoted := by
  obtain ⟨hbyte, hkilobyte, -⟩ := denoted_bounds h
  obtain ⟨-, hkilobyte', hmegabyte'⟩ := denoted_bounds h'
  obtain ⟨hx, hnonneg, hcovers, hcount⟩ := ofBytes?_eq_some_iff.mp h
  obtain ⟨hy, -, hcovers', hcount'⟩ := ofBytes?_eq_some_iff.mp h'
  by_cases hunit : size.unit = size'.unit
  · have hrange : size'.unit = .kilobyte → exactValue y ≤ 2 ^ 20 := by
      intro hkilobyte
      rw [hkilobyte] at hcovers'
      exact hcovers'.2.le
    rw [hunit] at hcount
    have hcounts : (size.count : ℚ) ≤ size'.count :=
      mod_cast countOf?_mono hcount hcount' hx hy hnonneg hle hrange
    rw [denoted, denoted, hunit]
    gcongr
  · cases hsmall : size.unit with
    | byte =>
        have hend := hbyte hsmall
        cases hlarge : size'.unit with
        | byte => exact absurd (hsmall.trans hlarge.symm) hunit
        | kilobyte => exact hend.trans (hkilobyte' hlarge).1
        | megabyte => linarith [hmegabyte' hlarge]
    | kilobyte =>
        have hend := (hkilobyte hsmall).2
        rw [hsmall] at hcovers
        cases hlarge : size'.unit with
        | byte =>
            rw [hlarge] at hcovers'
            exact absurd (hcovers.1.trans hle) (not_le.mpr hcovers')
        | kilobyte => exact absurd (hsmall.trans hlarge.symm) hunit
        | megabyte => exact hend.trans (hmegabyte' hlarge)
    | megabyte =>
        -- what is larger than a megabyte is shown in megabytes
        rw [hsmall] at hcovers
        have hlarge : Covers .megabyte (exactValue y) := le_trans hcovers hle
        exact absurd (hsmall.trans (hlarge.unique hcovers')) hunit

/-! ### Whole numbers of bytes -/

section Whole

variable {n k : ℕ}

/-- **A tenth of a whole number has it as its tenths.**  Up to 1024.0 kB the tenth is moved too
little for its decimals to change. -/
theorem decimals?_ofNat_div_ten (hk : k ≤ 10240) :
    decimals? .toEven 1 (Float.ofNat k / 10.0) = some k := by
  have hk' : (k : ℚ) ≤ 10240 := mod_cast hk
  obtain ⟨hwhole, hvalue⟩ := exactValue_ofNat_of_le (by omega : k ≤ 2 ^ 53)
  have hnearest := nearest_ofNat_div_ten (by omega : k ≤ 2 ^ 53)
  have hrange : |(k : ℚ) / 10| < overflowLimit := by
    rw [← hvalue]
    exact abs_exactValue_div_lt hwhole (by norm_num)
  have hfinite := hnearest.isFinite_iff.mpr hrange
  have hmoved : |exactValue (Float.ofNat k / 10.0) - k / 10| < 2 ^ (-6 : ℤ) :=
    hnearest.abs_sub_lt (by positivity) (by norm_num) (by norm_num; linarith) (abs_lt.mp hrange).2
  obtain ⟨hleft, hright⟩ := abs_lt.mp hmoved
  norm_num at hleft hright
  refine decimals?_eq_some_iff.mpr ⟨hfinite, .inl ?_⟩
  rw [abs_of_nonneg (hnearest.exactValue_nonneg hfinite (by positivity)), abs_lt]
  constructor <;> linarith

/-- Below a megabyte, the bytes in kilobytes and ten times that are doubles … -/
theorem exactValue_tenths (hn : n < 2 ^ 20) :
    (Float.ofNat n / kilo * 10.0).isFinite = true ∧
      exactValue (Float.ofNat n / kilo * 10.0) = (10 * n : ℕ) / 2 ^ 10 := by
  obtain ⟨hfinite, hvalue⟩ := exactValue_ofNat_of_le (by omega : n ≤ 2 ^ 53)
  have hquotient := nearest_div_kilo hfinite
  rw [hvalue] at hquotient
  obtain ⟨hfinite', hvalue'⟩ := hquotient.exactValue_eq_div (by omega) (by norm_num)
  have hproduct := nearest_mul_ten hfinite'
  have htimes : (n : ℚ) / 2 ^ 10 * 10 = (10 * n : ℕ) / 2 ^ 10 := by
    push_cast
    ring
  rw [hvalue', htimes] at hproduct
  exact hproduct.exactValue_eq_div (by omega) (by norm_num)

/-- … and are shown as the nearest tenths. -/
theorem exists_countOf?_kilobyte (hn : n < 2 ^ 20) :
    ∃ k, countOf? (.ofNat n) .kilobyte = some k ∧ Tie.up.Rounds (10 * n / 1024) k := by
  obtain ⟨hfinite, hvalue⟩ := exactValue_tenths hn
  obtain ⟨k, hk⟩ := exists_decimals? .up 0 hfinite
  obtain ⟨-, hrounds⟩ := decimals?_eq_some_iff.mp hk
  have htenths : |exactValue (Float.ofNat n / kilo * 10.0)| * 10 ^ 0 = 10 * n / 1024 := by
    rw [hvalue, abs_of_nonneg (by positivity)]
    push_cast
    ring
  rw [htenths] at hrounds
  have hn' : (n : ℚ) < 2 ^ 20 := mod_cast hn
  have hend : k ≤ 10240 := hrounds.mono (Tie.up.rounds_self 10240) (by push_cast; linarith)
  exact ⟨k, Option.bind_eq_some_iff.mpr ⟨k, hk, decimals?_ofNat_div_ten hend⟩, hrounds⟩

/-- The bytes in megabytes are a double, and are shown as the nearest hundredths. -/
theorem exists_countOf?_megabyte (hn : n ≤ 2 ^ 53) :
    ∃ c, countOf? (.ofNat n) .megabyte = some c ∧ Tie.toEven.Rounds (100 * n / 2 ^ 20) c := by
  obtain ⟨hfinite, hvalue⟩ := exactValue_ofNat_of_le hn
  have hquotient := nearest_div_mega hfinite
  rw [hvalue] at hquotient
  obtain ⟨hfinite', hvalue'⟩ := hquotient.exactValue_eq_div hn (by norm_num)
  obtain ⟨c, hc⟩ := exists_decimals? .toEven 2 hfinite'
  obtain ⟨-, hrounds⟩ := decimals?_eq_some_iff.mp hc
  have hhundredths : |exactValue (Float.ofNat n / mega)| * 10 ^ 2 = 100 * n / 2 ^ 20 := by
    rw [hvalue', abs_of_nonneg (by positivity)]
    ring
  rw [hhundredths] at hrounds
  exact ⟨c, hc, hrounds⟩

/-- **What is shown for a whole number of bytes.** -/
theorem shownAs_ofNat (hn : n ≤ 2 ^ 53) :
    ∃ size text, ofBytes? (.ofNat n) = some size ∧ ShownAs n size text := by
  obtain ⟨hfinite, hvalue⟩ := exactValue_ofNat_of_le hn
  have hnonneg : 0 ≤ exactValue (Float.ofNat n) := by
    rw [hvalue]
    positivity
  rcases lt_or_ge n (2 ^ 10) with hbyte | hkilo
  · have hcount : countOf? (.ofNat n) .byte = some n := by
      refine decimals?_eq_some_iff.mpr ⟨hfinite, ?_⟩
      rw [abs_of_nonneg hnonneg, hvalue, pow_zero, mul_one]
      exact Tie.up.rounds_self n
    have hcovers : Covers .byte (exactValue (Float.ofNat n)) := by
      show exactValue (Float.ofNat n) < 2 ^ 10
      rw [hvalue]
      exact_mod_cast hbyte
    exact ⟨_, _, ofBytes?_eq_some_iff.mpr ⟨hfinite, hnonneg, hcovers, hcount⟩, .byte hbyte⟩
  rcases lt_or_ge n (2 ^ 20) with hkilobyte | hmega
  · obtain ⟨k, hcount, hrounds⟩ := exists_countOf?_kilobyte hkilobyte
    have hcovers : Covers .kilobyte (exactValue (Float.ofNat n)) := by
      rw [hvalue]
      exact ⟨mod_cast hkilo, mod_cast hkilobyte⟩
    exact ⟨⟨k, _⟩, _, ofBytes?_eq_some_iff.mpr ⟨hfinite, hnonneg, hcovers, hcount⟩,
      .kilobyte hkilo hkilobyte hrounds⟩
  · obtain ⟨c, hcount, hrounds⟩ := exists_countOf?_megabyte hn
    have hcovers : Covers .megabyte (exactValue (Float.ofNat n)) := by
      show 2 ^ 20 ≤ exactValue (Float.ofNat n)
      rw [hvalue]
      exact_mod_cast hmega
    exact ⟨⟨c, _⟩, _, ofBytes?_eq_some_iff.mpr ⟨hfinite, hnonneg, hcovers, hcount⟩,
      .megabyte hmega hrounds⟩

end Whole

/-- Every finite double of a megabyte or more is shown. -/
theorem exists_ofBytes?_of_large (hx : x.isFinite = true) (hlarge : 2 ^ 20 ≤ exactValue x) :
    ∃ shown, ofBytes? x = some shown := by
  obtain ⟨c, hc⟩ := exists_decimals? .toEven 2 (isFinite_div_mega hx)
  exact ⟨⟨c, .megabyte⟩,
    ofBytes?_eq_some_iff.mpr ⟨hx, le_trans (by norm_num) hlarge, hlarge, hc⟩⟩

end FileSize

/-! ### Refused uploads -/

/-- The limit of an upload as it is shown. -/
theorem ofBytes?_uploadLimit :
    FileSize.ofBytes? (.ofNat uploadLimit) = some ⟨1000, .megabyte⟩ := by decide +kernel

theorem exactValue_uploadLimit : (Float.ofNat uploadLimit).isFinite = true ∧
    exactValue (Float.ofNat uploadLimit) = 10 * 2 ^ 20 := by
  obtain ⟨hfinite, hvalue⟩ := exactValue_ofNat (by decide : uploadLimit < 2 ^ 53)
  refine ⟨hfinite, ?_⟩
  rw [hvalue, uploadLimit]
  norm_num

/-- **When an upload is refused**, and the words of it. -/
theorem uploadRejection?_eq_some_iff {x : Float} {message : String} :
    uploadRejection? x = some message ↔
      x.isFinite = true ∧ 10 * 2 ^ 20 < exactValue x ∧
        ∃ shown, FileSize.ofBytes? x = some shown ∧
          message = "Planner JSON is " ++ shown.text ++ "; uploads are limited to " ++
            (FileSize.mk 1000 .megabyte).text ++ "." := by
  obtain ⟨hlimit, hlimitvalue⟩ := exactValue_uploadLimit
  rw [uploadRejection?]
  by_cases hx : x.isFinite = true
  · have hle : x ≤ Float.ofNat uploadLimit ↔ ¬ 10 * 2 ^ 20 < exactValue x := by
      rw [le_iff_exactValue hx hlimit, hlimitvalue, not_lt]
    by_cases hlarge : 10 * 2 ^ 20 < exactValue x
    · simp only [hx, hle, hlarge, Bool.not_true, not_true_eq_false, decide_false, Bool.or_self,
        Bool.false_eq_true, if_false, true_and, FileSize.describe?, ofBytes?_uploadLimit,
        Option.map_some, bind, Option.bind_some, pure]
      cases FileSize.ofBytes? x with
      | none => simp
      | some shown => simp [eq_comm]
    · simp [hx, hle, hlarge]
  · simp [hx]

namespace FileSize

/-- **Sizes as shown.**  Every whole number of bytes up to two to the fifty-third is shown as the
nearest printed step of its unit; the larger number is denoted as the larger size, also across
units; and a whole number of bytes is refused exactly above ten megabytes, in words that never
show a size smaller than the limit they show. -/
theorem shown_exact :
    (∀ n ≤ 2 ^ 53, ∃ size text, ofBytes? (.ofNat n) = some size ∧
        describe? (.ofNat n) = some text ∧ ShownAs n size text) ∧
      (∀ n m, n ≤ m → m ≤ 2 ^ 53 → ∀ size size', ofBytes? (.ofNat n) = some size →
        ofBytes? (.ofNat m) = some size' → size.denoted ≤ size'.denoted) ∧
      ∀ (x : Float) (n : ℤ), x.isFinite = true → exactValue x = n →
        ((∃ message, uploadRejection? x = some message) ↔ 10 * 2 ^ 20 < n) ∧
        ∀ message, uploadRejection? x = some message →
          ∃ shown limit, ofBytes? x = some shown ∧ ofBytes? (.ofNat uploadLimit) = some limit ∧
            message = "Planner JSON is " ++ shown.text ++ "; uploads are limited to " ++
              limit.text ++ "." ∧
            limit.denoted ≤ shown.denoted := by
  refine ⟨fun n hn => ?_, fun n m hle hm size size' hsize hsize' => ?_,
    fun x n hx hvalue => ⟨?_, fun message hmessage => ?_⟩⟩
  · obtain ⟨size, text, hsize, hshown⟩ := shownAs_ofNat hn
    refine ⟨size, text, hsize, ?_, hshown⟩
    rw [describe?, hsize, Option.map_some, hshown.text_eq]
  · refine denoted_mono hsize hsize' ?_
    rw [(exactValue_ofNat_of_le (hle.trans hm)).2, (exactValue_ofNat_of_le hm).2]
    exact_mod_cast hle
  · simp only [uploadRejection?_eq_some_iff, hx, hvalue, true_and]
    constructor
    · rintro ⟨message, hlarge, -⟩
      exact_mod_cast hlarge
    · intro hlarge
      have hlarge' : 10 * 2 ^ 20 < (n : ℚ) := mod_cast hlarge
      obtain ⟨shown, hshown⟩ := exists_ofBytes?_of_large hx (by rw [hvalue]; linarith)
      exact ⟨_, hlarge', shown, hshown, rfl⟩
  · obtain ⟨-, hlarge, shown, hshown, rfl⟩ := uploadRejection?_eq_some_iff.mp hmessage
    refine ⟨shown, _, hshown, ofBytes?_uploadLimit, rfl, ?_⟩
    refine denoted_mono ofBytes?_uploadLimit hshown ?_
    rw [exactValue_uploadLimit.2]
    exact hlarge.le

/-- The last number of bytes below a megabyte and the first one above the limit: the former is
shown as a full 1024.0 kB, which is denoted as no more than the next one, and the latter is
refused. -/
theorem shown_exact_ends :
    ShownAs (2 ^ 20 - 1) ⟨10240, .kilobyte⟩ "1024.0 kB" ∧
      denoted ⟨10240, .kilobyte⟩ ≤ denoted ⟨100, .megabyte⟩ ∧
      ∃ message, uploadRejection? (.ofNat (10 * 2 ^ 20 + 1)) = some message := by
  obtain ⟨hshown, hmono, hrefused⟩ := shown_exact
  have hlast : ofBytes? (.ofNat (2 ^ 20 - 1)) = some ⟨10240, .kilobyte⟩ := by decide +kernel
  have hfirst : ofBytes? (.ofNat (2 ^ 20)) = some ⟨100, .megabyte⟩ := by decide +kernel
  have htext : describe? (.ofNat (2 ^ 20 - 1)) = some "1024.0 kB" := by decide +kernel
  refine ⟨?_, hmono (2 ^ 20 - 1) (2 ^ 20) (by norm_num) (by norm_num) _ _ hlast hfirst, ?_⟩
  · obtain ⟨size, text, hsize, hwords, has⟩ := hshown (2 ^ 20 - 1) (by norm_num)
    rw [hlast, Option.some.injEq] at hsize
    rw [htext, Option.some.injEq] at hwords
    rwa [← hsize, ← hwords] at has
  · obtain ⟨hfinite, hvalue⟩ := exactValue_ofNat_of_le (by norm_num : 10 * 2 ^ 20 + 1 ≤ 2 ^ 53)
    exact (hrefused _ (10 * 2 ^ 20 + 1 : ℕ) hfinite (mod_cast hvalue)).1.mpr (by norm_num)

end FileSize

end YarnPreview
