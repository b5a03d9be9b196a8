/-
  What an accepted calibration makes of the crosses it was taken from
  (`TP_Adjust` and `TP_Scan` in `HARDWARE/TOUCH/touch.c`), in exact arithmetic.

  The offset is cut to a `short` and the screen coordinate to a `u16`; each cut is
  off by less than one.

  * `toScreen_near`: for one axis;
  * `crosses_mapped`: the crosses are found where they were drawn.
-/
import DataRecorder.Touch.Acceptance

namespace DataRecorder.Touch

open Base

section
variable {size a b : UInt16}

/-- The factor of an axis, and its offset before it is cut. -/
def slope (size a b : UInt16) : ℚ := ((size.toNat : ℚ) - 40) / ((b.toNat : ℚ) - a.toNat)

def intercept (size a b : UInt16) : ℚ := ((size.toNat : ℚ) - slope size a b * (b.toNat + a.toNat)) / 2

theorem val_facFor_slope (h : a ≠ b) : (facFor size a b : FloatVal exact).val = .num (slope size a b) :=
  val_facFor h

/-- Without cuts, the first cross is found at 20, -/
theorem slope_mul_first (h : a ≠ b) : slope size a b * a.toNat + intercept size a b = 20 := by
  have hab := sub_toNat_ne_zero h
  rw [intercept, slope]
  field_simp
  ring

/-- and the second at `size - 20`. -/
theorem slope_mul_second (h : a ≠ b) :
    slope size a b * b.toNat + intercept size a b = (size.toNat : ℚ) - 20 := by
  have hab := sub_toNat_ne_zero h
  rw [intercept, slope]
  field_simp
  ring

theorem abs_slope_lt (h : a ≠ b)
    (hfac : (facFor size a b : FloatVal exact).toInt32.toInt.natAbs ≤ 2) : |slope size a b| < 3 := by
  have hn : (truncate (slope size a b)).natAbs < 3 := by
    rw [FloatVal.toInt32_toInt (val_facFor_slope h)] at hfac
    omega
  exact_mod_cast natAbs_truncate_lt.1 hn

/-- The offset of an accepted axis fits a `short`. -/
theorem abs_intercept_lt (h : a ≠ b) (ha : a.toNat < 4096) (hs : |slope size a b| < 3) :
    |intercept size a b| < 12306 := by
  have hfirst : slope size a b * a.toNat + intercept size a b = 20 := slope_mul_first h
  have ha' : (a.toNat : ℚ) ≤ 4095 := by exact_mod_cast (show a.toNat ≤ 4095 by omega)
  have hprod : |slope size a b * a.toNat| ≤ 3 * 4095 := by
    rw [abs_mul, Nat.abs_cast]
    exact mul_le_mul hs.le ha' (Nat.cast_nonneg _) (by norm_num)
  rw [abs_le] at hprod
  rw [abs_lt]
  constructor <;> linarith

theorem offFor_toInt (h : a ≠ b) (ha : a.toNat < 4096) (hs : |slope size a b| < 3) :
    (offFor (facFor size a b : FloatVal exact) size a b).toInt = truncate (intercept size a b) := by
  have hval : (((FloatVal.ofInt size.toNat).sub ((facFor size a b : FloatVal exact).mul
      (.ofInt ((b.toNat : ℤ) + a.toNat)))).div (.ofInt 2)).val = .num (intercept size a b) := by
    rw [FloatVal.val_div (FloatVal.val_sub (a := ((size.toNat : ℤ) : ℚ)) rfl
      (FloatVal.val_mul (val_facFor_slope h) (b := (((b.toNat : ℤ) + a.toNat : ℤ) : ℚ)) rfl))
      (b := ((2 : ℤ) : ℚ)) rfl (by norm_num)]
    rw [intercept]
    push_cast
    rfl
  have hlt := abs_intercept_lt h ha hs
  have hn := natAbs_truncate_lt.2 (show |intercept size a b| < (12306 : ℕ) by exact_mod_cast hlt)
  rw [offFor, Int32.toInt_toInt16, FloatVal.toInt32_toInt_of_abs_lt hval (lt_trans hlt (by norm_num))]
  exact Int.bmod_eq_of_le (by omega) (by omega)

/-- **One axis**: a reading that belongs at `t` is found within one pixel of it. -/
theorem toScreen_near {v : UInt16} {t : ℕ} (h : a ≠ b) (ha : a.toNat < 4096)
    (hs : |slope size a b| < 3) (ht₁ : 20 ≤ t) (ht₂ : t ≤ 1004)
    (hv : slope size a b * v.toNat + intercept size a b = t) :
    |((toScreen (A := .ideal) (facFor size a b) (offFor (facFor size a b : FloatVal exact) size a b) v).toNat : ℤ)
      - t| ≤ 1 := by
  have hcut := abs_lt.1 (abs_truncate_sub_lt (intercept size a b))
  have ht₁' : (20 : ℚ) ≤ t := by exact_mod_cast ht₁
  have ht₂' : (t : ℚ) ≤ 1004 := by exact_mod_cast ht₂
  -- the exact value of the result, before it is cut
  have hfac : (facFor size a b : FloatVal exact).val = .num (slope size a b) := val_facFor_slope h
  have hprod := FloatVal.val_mul hfac (y := .ofInt v.toNat) (b := ((v.toNat : ℤ) : ℚ)) rfl
  have hval := FloatVal.val_add hprod (y := .ofInt (truncate (intercept size a b)))
    (b := (truncate (intercept size a b) : ℚ)) rfl
  obtain ⟨q, hq⟩ : ∃ q, q = slope size a b * ((v.toNat : ℤ) : ℚ) + truncate (intercept size a b) := ⟨_, rfl⟩
  rw [← hq] at hval
  push_cast at hq
  have hlow : (t : ℚ) - 1 < q := by linarith
  have hhigh : q < (t : ℚ) + 1 := by linarith
  have hword := FloatVal.toUInt32_toNat hval (by linarith) (by linarith)
  have hfloor₁ : (t : ℤ) - 1 ≤ ⌊q⌋ := Int.le_floor.2 (by push_cast; linarith)
  have hfloor₂ : ⌊q⌋ < (t : ℤ) + 1 := Int.floor_lt.2 (by push_cast; linarith)
  rw [toScreen, offFor_toInt h ha hs]
  rw [UInt32.toNat_toUInt16, abs_le]
  omega

end

/-- **The crosses of an accepted calibration** are mapped to within one pixel of where they were
drawn. -/
theorem crosses_mapped {lcd : Lcd} (hw : lcd.width.toNat ≤ 1024) (hh : lcd.height.toNat ≤ 1024)
    {pos : ℕ → Point} (hpos : ∀ i < 4, (pos i).1.toNat < 4096 ∧ (pos i).2.toNat < 4096)
    {tp d : AdjData .ideal} (h : calibrate lcd pos tp = .accepted d) :
    |((toScreen d.xfac d.xoff (pos 0).1).toNat : ℤ) - 20| ≤ 1 ∧
      |((toScreen d.xfac d.xoff (pos 1).1).toNat : ℤ) - ((lcd.width.toNat : ℤ) - 20)| ≤ 1 ∧
      |((toScreen d.yfac d.yoff (pos 0).2).toNat : ℤ) - 20| ≤ 1 ∧
      |((toScreen d.yfac d.yoff (pos 2).2).toNat : ℤ) - ((lcd.height.toNat : ℤ) - 20)| ≤ 1 := by
  obtain ⟨-, rfl, hx, hy⟩ := calibrate_accepted_iff.1 h
  have hw₀ := lcd.width_gt
  have hh₀ := lcd.height_gt
  have hxs : (pos 0).1 ≠ (pos 1).1 := ne_of_natAbs_facFor hw₀ hx
  have hys : (pos 0).2 ≠ (pos 2).2 := ne_of_natAbs_facFor hh₀ hy
  obtain ⟨hx₀, hy₀⟩ := hpos 0 (by decide)
  have hsx := abs_slope_lt hxs hx
  have hsy := abs_slope_lt hys hy
  have hcast {n : ℕ} (hn : 40 < n) : ((n - 20 : ℕ) : ℤ) = (n : ℤ) - 20 := by omega
  refine ⟨?_, ?_, ?_, ?_⟩
  · exact toScreen_near (t := 20) hxs hx₀ hsx (by decide) (by decide) (by exact_mod_cast slope_mul_first hxs)
  · rw [← hcast hw₀]
    refine toScreen_near hxs hx₀ hsx (by omega) (by omega) ?_
    rw [slope_mul_second hxs, Nat.cast_sub (by omega)]
    norm_num
  · exact toScreen_near (t := 20) hys hy₀ hsy (by decide) (by decide) (by exact_mod_cast slope_mul_first hys)
  · rw [← hcast hh₀]
    refine toScreen_near hys hy₀ hsy (by omega) (by omega) ?_
    rw [slope_mul_second hys, Nat.cast_sub (by omega)]
    norm_num

/-! ## A mirrored panel -/

/-- The `x` readings fall from left to right. -/
def mirrored : ℕ → Point
  | 0 => (3000, 500)
  | 1 => (2790, 500)
  | 2 => (3000, 780)
  | _ => (2790, 780)

theorem calibrate_mirrored (tp : AdjData .ideal) :
    calibrate portrait mirrored tp = .accepted (factorsOf portrait mirrored tp.touchtype) := by
  have hmatch : Matching .ideal mirrored :=
    .of_eq (dist_congr (by decide) (by decide)) (by decide) (dist_congr (by decide) (by decide))
      (dist_congr (by decide) (by decide))
  refine calibrate_accepted_iff.2 ⟨hmatch, rfl, ?_, ?_⟩
  · show (facFor portrait.width (mirrored 0).1 (mirrored 1).1 : FloatVal exact).toInt32.toInt.natAbs ≤ 2
    decide +kernel
  · show (facFor portrait.height (mirrored 0).2 (mirrored 2).2 : FloatVal exact).toInt32.toInt.natAbs ≤ 2
    decide +kernel

theorem crosses_mapped_mirrored : ∃ d : AdjData .ideal,
    calibrate portrait mirrored ⟨.ofInt 0, .ofInt 0, 0, 0, 0⟩ = .accepted d ∧
      |((toScreen d.xfac d.xoff 3000).toNat : ℤ) - 20| ≤ 1 ∧
      |((toScreen d.xfac d.xoff 2790).toNat : ℤ) - 220| ≤ 1 := by
  have hcal := calibrate_mirrored ⟨.ofInt 0, .ofInt 0, 0, 0, 0⟩
  have hmap := crosses_mapped (by decide) (by decide) (by decide) hcal
  exact ⟨_, hcal, hmap.1, hmap.2.1⟩

end DataRecorder.Touch
