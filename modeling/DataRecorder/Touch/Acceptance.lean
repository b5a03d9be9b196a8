/-
  Which calibrations `TP_Adjust` accepts (`HARDWARE/TOUCH/touch.c`), in exact
  arithmetic.

  Only the first of the three ratio tests looks for a distance zero, and a ratio
  `0 / 0` passes the other two; the test of the factors applies the integer `abs`
  to a `float`, and so lets factors below 3 pass.

  * `dist_eq_zero`: a distance is zero for coinciding points only, although the
    `u32` sum of the squares may wrap around;
  * `roundSound_iff`: the accepted rounds that are sound;
  * `Adjust.cnt_lt_of_after`: `pos_temp` is never left;
  * `calibration_sound_iff`: all of it.
-/
import DataRecorder.Touch.Adjust

namespace DataRecorder.Touch

open Base

/-! ## Distances -/

/-- A power of four is no sum of two smaller squares. -/
theorem sq_add_sq_ne_four_pow {k a b : ℕ} (ha : a < 2 ^ k) (hb : b < 2 ^ k) : a * a + b * b ≠ 4 ^ k := by
  induction k generalizing a b with
  | zero =>
    have ha₀ : a = 0 := by simpa using ha
    have hb₀ : b = 0 := by simpa using hb
    rw [ha₀, hb₀]
    decide
  | succ k ih =>
    intro h
    rw [pow_succ] at ha hb h
    -- both are even, since a square is 0 or 1 modulo 4
    have hsq (n : ℕ) : n * n % 4 = n % 2 := by
      have : n % 4 = 0 ∨ n % 4 = 1 ∨ n % 4 = 2 ∨ n % 4 = 3 := by omega
      rcases this with h | h | h | h <;> rw [Nat.mul_mod, h] <;> omega
    have ha₂ := hsq a
    have hb₂ := hsq b
    obtain ⟨a', rfl⟩ : ∃ a', a = 2 * a' := ⟨a / 2, by omega⟩
    obtain ⟨b', rfl⟩ : ∃ b', b = 2 * b' := ⟨b / 2, by omega⟩
    refine ih (a := a') (b := b') (by omega) (by omega) ?_
    have hfour : 2 * a' * (2 * a') + 2 * b' * (2 * b') = (a' * a' + b' * b') * 4 := by ring
    omega

/-- The differences of the coordinates of two points. -/
def dx (p q : Point) : ℕ := ((p.1.toNat : ℤ) - q.1.toNat).natAbs

def dy (p q : Point) : ℕ := ((p.2.toNat : ℤ) - q.2.toNat).natAbs

theorem dx_lt (p q : Point) : dx p q < 65536 := by
  have := p.1.toNat_lt
  have := q.1.toNat_lt
  rw [dx]
  omega

theorem dy_lt (p q : Point) : dy p q < 65536 := by
  have := p.2.toNat_lt
  have := q.2.toNat_lt
  rw [dy]
  omega

theorem dist_eq (p q : Point) : dist p q =
    UInt16.ofNat ((dx p q * dx p q + dy p q * dy p q) % 4294967296).sqrt := by
  have hsq {n : ℕ} (h : n < 65536) : (UInt32.ofNat n * UInt32.ofNat n).toNat = n * n := by
    have hn : n * n < 4294967296 := by nlinarith
    rw [UInt32.toNat_mul, UInt32.toNat_ofNat', Nat.mod_eq_of_lt (show n < 2 ^ 32 by omega)]
    exact Nat.mod_eq_of_lt hn
  unfold dist
  dsimp only
  rw [UInt32.toNat_add]
  have hx := hsq (dx_lt p q)
  have hy := hsq (dy_lt p q)
  rw [dx] at hx
  rw [dy] at hy
  rw [hx, hy]
  rfl

/-- A distance depends on the differences only. -/
theorem dist_congr {p q p' q' : Point} (hx : dx p q = dx p' q') (hy : dy p q = dy p' q') :
    dist p q = dist p' q' := by
  rw [dist_eq, dist_eq, hx, hy]

/-- **A distance is zero** for coinciding points only. -/
theorem dist_eq_zero {p q : Point} : dist p q = 0 ↔ p = q := by
  have hx := dx_lt p q
  have hy := dy_lt p q
  have hsum : dx p q * dx p q + dy p q * dy p q < 2 * 4294967296 := by nlinarith
  have hpow := sq_add_sq_ne_four_pow (k := 16) (a := dx p q) (b := dy p q) (by omega) (by omega)
  have hmod : (dx p q * dx p q + dy p q * dy p q) % 4294967296 = 0 ↔ dx p q = 0 ∧ dy p q = 0 := by
    constructor
    · intro h
      have hzero : dx p q * dx p q + dy p q * dy p q = 0 := by
        have : (4 : ℕ) ^ 16 = 4294967296 := by norm_num
        omega
      constructor
      · exact mul_self_eq_zero.1 (by omega)
      · exact mul_self_eq_zero.1 (by omega)
    · rintro ⟨h₁, h₂⟩
      rw [h₁, h₂]
  have hsqrt : ((dx p q * dx p q + dy p q * dy p q) % 4294967296).sqrt < 65536 :=
    Nat.sqrt_lt.2 (Nat.mod_lt _ (by decide))
  rw [dist_eq, ← UInt16.toNat_inj, UInt16.toNat_ofNat', Nat.mod_eq_of_lt (by omega),
    show (0 : UInt16).toNat = 0 from rfl, Nat.sqrt_eq_zero, hmod]
  constructor
  · rintro ⟨h₁, h₂⟩
    rw [dx] at h₁
    rw [dy] at h₂
    exact Prod.ext (UInt16.toNat_inj.1 (by omega)) (UInt16.toNat_inj.1 (by omega))
  · rintro rfl
    simp [dx, dy]

/-! ## Ratios and factors -/

/-- A ratio by zero passes the test only as `0 / 0`. -/
theorem badRatio_zero {d1 : UInt16} : badRatio .ideal d1 0 = false ↔ d1 = 0 := by
  constructor
  · intro h
    by_contra hd
    have hpos : 0 < d1.toNat := Nat.pos_of_ne_zero fun h₀ => hd (UInt16.toNat_inj.1 h₀)
    have hval := FloatVal.val_div_zero (x := .ofInt d1.toNat) (y := .ofInt (0 : UInt16).toNat)
      (a := ((d1.toNat : ℤ) : ℚ)) rfl rfl (by exact_mod_cast hpos.ne')
    have hneg : ¬ ((d1.toNat : ℤ) : ℚ) < 0 := by
      push_cast
      exact not_lt.2 (Nat.cast_nonneg _)
    rw [decide_eq_false hneg] at hval
    have hbad : badRatio .ideal d1 0 = true := by
      rw [badRatio, FloatVal.ext_val (y := .inf false) hval]
      rfl
    exact absurd (h.symm.trans hbad) (by decide)
  · rintro rfl
    rfl

theorem badRatio_self (d : UInt16) : badRatio .ideal d d = false := by
  by_cases hd : d = 0
  · rw [hd, badRatio_zero]
  · have hne : ((d.toNat : ℤ) : ℚ) ≠ 0 := by
      exact_mod_cast fun h₀ => hd (UInt16.toNat_inj.1 h₀)
    have hval := FloatVal.val_div (x := .ofInt d.toNat) (y := .ofInt d.toNat) rfl rfl hne
    rw [div_self hne] at hval
    rw [badRatio, FloatVal.ext_val (y := .ofInt 1) hval]
    decide +kernel

/-- Points with equal opposite sides and equal diagonals match, also where the diagonals are zero. -/
theorem Matching.of_eq {pos : ℕ → Point} (hrows : dist (pos 0) (pos 1) = dist (pos 2) (pos 3))
    (hne : pos 0 ≠ pos 1) (hcolumns : dist (pos 0) (pos 2) = dist (pos 1) (pos 3))
    (hdiagonals : dist (pos 1) (pos 2) = dist (pos 0) (pos 3)) : Matching .ideal pos where
  rows := hrows ▸ badRatio_self _
  row₁ := mt dist_eq_zero.1 hne
  row₂ := hrows ▸ mt dist_eq_zero.1 hne
  columns := hcolumns ▸ badRatio_self _
  diagonals := hdiagonals ▸ badRatio_self _

section
variable {size a b : UInt16}

theorem sub_toNat_ne_zero (h : a ≠ b) : ((b.toNat : ℚ) - a.toNat) ≠ 0 := by
  intro h'
  have heq : (b.toNat : ℚ) = a.toNat := sub_eq_zero.1 h'
  exact h (UInt16.toNat_inj.1 (by exact_mod_cast heq.symm))

theorem val_facFor (h : a ≠ b) : (facFor size a b : FloatVal exact).val =
    .num (((size.toNat : ℚ) - 40) / ((b.toNat : ℚ) - a.toNat)) := by
  have hab := sub_toNat_ne_zero h
  have hval := FloatVal.val_div (x := .ofInt ((size.toNat : ℤ) - 40)) (y := .ofInt ((b.toNat : ℤ) - a.toNat))
    (a := (((size.toNat : ℤ) - 40 : ℤ) : ℚ)) (b := (((b.toNat : ℤ) - a.toNat : ℤ) : ℚ)) rfl rfl
    (by push_cast; exact hab)
  rw [facFor, hval]
  push_cast
  rfl

/-- Accepted factors come from readings that differ. -/
theorem ne_of_natAbs_facFor (hsize : 40 < size.toNat)
    (h : (facFor size a b : FloatVal exact).toInt32.toInt.natAbs ≤ 2) : a ≠ b := by
  rintro rfl
  refine absurd h (Nat.not_le.2 (natAbs_facFor_self (q := (((size.toNat : ℤ) - 40 : ℤ) : ℚ)) rfl ?_ rfl))
  exact_mod_cast (show (size.toNat : ℤ) - 40 ≠ 0 by omega)

/-- `fac` is a number other than zero, and at most 2 in size. -/
def FactorOk {R : Rounding} (fac : FloatVal R) : Prop := ∃ q, fac.val = .num q ∧ 0 < |q| ∧ |q| ≤ 2

theorem factorOk_facFor (hsize : 40 < size.toNat) (h : a ≠ b) : FactorOk (facFor size a b : FloatVal exact) ↔
    (size.toNat : ℤ) - 40 ≤ 2 * |(b.toNat : ℤ) - a.toNat| := by
  have hnum : (0 : ℚ) < (size.toNat : ℚ) - 40 := by
    rw [sub_pos]
    exact_mod_cast hsize
  have hden : 0 < |(b.toNat : ℚ) - a.toNat| := abs_pos.2 (sub_toNat_ne_zero h)
  have habs : |((size.toNat : ℚ) - 40) / ((b.toNat : ℚ) - a.toNat)| =
      ((size.toNat : ℚ) - 40) / |(b.toNat : ℚ) - a.toNat| := by rw [abs_div, abs_of_pos hnum]
  constructor
  · rintro ⟨q, hq, -, hle⟩
    rw [val_facFor h, Fp.num.injEq] at hq
    rw [← hq, habs, div_le_iff₀ hden] at hle
    exact_mod_cast hle
  · intro hle
    refine ⟨_, val_facFor h, ?_, ?_⟩
    · rw [habs]
      exact div_pos hnum hden
    · rw [habs, div_le_iff₀ hden]
      exact_mod_cast hle

end

/-! ## Accepted rounds -/

variable {lcd : Lcd} {pos : ℕ → Point}

/-- No division of the round has a divisor zero. -/
structure NoZeroDivisor (pos : ℕ → Point) : Prop where
  rows : dist (pos 2) (pos 3) ≠ 0
  columns : dist (pos 1) (pos 3) ≠ 0
  diagonals : dist (pos 0) (pos 3) ≠ 0
  xs : (pos 1).1 ≠ (pos 0).1
  ys : (pos 2).2 ≠ (pos 0).2

/-- The points 1 and 4 differ, and the crosses are far enough apart for factors up to 2. -/
structure WellSpread (lcd : Lcd) (pos : ℕ → Point) : Prop where
  diagonal : pos 0 ≠ pos 3
  xs : (lcd.width.toNat : ℤ) - 40 ≤ 2 * |((pos 1).1.toNat : ℤ) - (pos 0).1.toNat|
  ys : (lcd.height.toNat : ℤ) - 40 ≤ 2 * |((pos 2).2.toNat : ℤ) - (pos 0).2.toNat|

/-- **Which accepted rounds are sound.** -/
theorem roundSound_iff {tp d : AdjData .ideal} (h : calibrate lcd pos tp = .accepted d) :
    NoZeroDivisor pos ∧ FactorOk d.xfac ∧ FactorOk d.yfac ↔ WellSpread lcd pos := by
  obtain ⟨hmatch, rfl, hx, hy⟩ := calibrate_accepted_iff.1 h
  have hxs : (pos 0).1 ≠ (pos 1).1 := ne_of_natAbs_facFor lcd.width_gt hx
  have hys : (pos 0).2 ≠ (pos 2).2 := ne_of_natAbs_facFor lcd.height_gt hy
  have hxfac : FactorOk (factorsOf (A := .ideal) lcd pos tp.touchtype).xfac ↔ _ :=
    factorOk_facFor lcd.width_gt hxs
  have hyfac : FactorOk (factorsOf (A := .ideal) lcd pos tp.touchtype).yfac ↔ _ :=
    factorOk_facFor lcd.height_gt hys
  rw [hxfac, hyfac]
  constructor
  · rintro ⟨hdiv, hxle, hyle⟩
    exact ⟨fun h => hdiv.diagonals (dist_eq_zero.2 h), hxle, hyle⟩
  · intro hspread
    refine ⟨⟨hmatch.row₂, ?_, ?_, hxs.symm, hys.symm⟩, hspread.xs, hspread.ys⟩
    · -- points 2 and 4 coincide only if 1 and 3 do
      intro hzero
      have hcolumns := hmatch.columns
      rw [hzero, badRatio_zero, dist_eq_zero] at hcolumns
      exact hys (congrArg Prod.snd hcolumns)
    · intro hzero
      exact hspread.diagonal (dist_eq_zero.1 hzero)

/-! ## Rounds in a run -/

section
variable {A : Arithmetic}

/-- The state of `TP_Adjust` after the scans `xs`, if it has not returned. -/
def Adjust.after (lcd : Lcd) : Adjust A → List Sample → Option (Adjust A)
  | s, [] => some s
  | s, x :: xs =>
    match s.step lcd x with
    | .running s' => after lcd s' xs
    | .accepted _ | .timedOut _ => none

theorem Adjust.tick_running {s s' : Adjust A} (h : s.tick = .running s') : s'.cnt = s.cnt := by
  unfold Adjust.tick at h
  split_ifs at h
  cases h
  rfl

/-- An iteration keeps the index within the four entries of `pos_temp`. -/
theorem Adjust.cnt_lt_of_step {s s' : Adjust A} {x : Sample} (h : s.step lcd x = .running s')
    (hcnt : s.cnt < 4) : s'.cnt < 4 := by
  unfold Adjust.step at h
  dsimp only at h
  split at h
  · split at h
    · split at h
      · cases h; exact Nat.zero_lt_succ 3
      · cases h; exact Nat.zero_lt_succ 3
      · cases h
    · rw [Adjust.tick_running h]
      dsimp only
      omega
  · rw [Adjust.tick_running h]
    exact hcnt

/-- **Over any number of rounds.** -/
theorem Adjust.cnt_lt_of_after {xs : List Sample} {s s' : Adjust A} (h : s.after lcd xs = some s')
    (hcnt : s.cnt < 4) : s'.cnt < 4 := by
  induction xs generalizing s with
  | nil => cases h; exact hcnt
  | cons x xs ih =>
    rw [Adjust.after] at h
    split at h
    · next hs => exact ih h (Adjust.cnt_lt_of_step hs hcnt)
    · cases h
    · cases h

/-- The points of the round that the scan `x` completes. -/
def Adjust.points (s : Adjust A) (x : Sample) : ℕ → Point :=
  Function.update s.pos s.cnt ((tpScan true x s.tp).x0, (tpScan true x s.tp).y0)

/-- A round that fails is not saved, and starts anew. -/
theorem Adjust.step_of_rejected {s : Adjust A} {x : Sample} (hcnt : s.cnt = 3)
    (hpress : (tpScan true x s.tp).sta &&& 0xc0 = tpCathPres)
    (h : ∀ d, calibrate lcd (s.points x) (tpScan true x s.tp).toAdjData ≠ .accepted d) :
    ∃ s', s.step lcd x = .running s' ∧ s'.cnt = 0 := by
  unfold Adjust.step
  dsimp only
  rw [if_pos hpress, if_pos (show s.cnt + 1 = 4 by omega)]
  split
  · exact ⟨_, rfl, rfl⟩
  · exact ⟨_, rfl, rfl⟩
  · next d hd => exact absurd hd (h d)

end

/-- **The acceptance of a calibration.**  An accepted round is sound exactly if its points are well
spread; one that fails starts anew; and the index of `pos_temp` stays within its four entries. -/
theorem calibration_sound_iff (lcd : Lcd) :
    (∀ pos (tp d : AdjData .ideal), calibrate lcd pos tp = .accepted d →
      (NoZeroDivisor pos ∧ FactorOk d.xfac ∧ FactorOk d.yfac ↔ WellSpread lcd pos)) ∧
    (∀ (s : Adjust .ideal) x, s.cnt = 3 → (tpScan true x s.tp).sta &&& 0xc0 = tpCathPres →
      (∀ d, calibrate lcd (s.points x) (tpScan true x s.tp).toAdjData ≠ .accepted d) →
      ∃ s', s.step lcd x = .running s' ∧ s'.cnt = 0) ∧
    ∀ (tp : TpDev .ideal) xs s, (Adjust.start tp).after lcd xs = some s → s.cnt < 4 :=
  ⟨fun _ _ _ => roundSound_iff, fun _ _ => Adjust.step_of_rejected,
    fun _ _ _ h => Adjust.cnt_lt_of_after h (by decide : 0 < 4)⟩

/-! ## Two diagonals of length zero -/

/-- The points 1 and 4 coincide, as do 2 and 3. -/
def folded : ℕ → Point
  | 0 | 3 => (1000, 1000)
  | _ => (1300, 1400)

theorem calibrate_folded (tp : AdjData .ideal) :
    calibrate portrait folded tp = .accepted (factorsOf portrait folded tp.touchtype) := by
  have hmatch : Matching .ideal folded :=
    .of_eq (dist_congr (by decide) (by decide)) (by decide) (dist_congr (by decide) (by decide))
      (dist_congr (by decide) (by decide))
  refine calibrate_accepted_iff.2 ⟨hmatch, rfl, ?_, ?_⟩
  · show (facFor portrait.width (folded 0).1 (folded 1).1 : FloatVal exact).toInt32.toInt.natAbs ≤ 2
    decide +kernel
  · show (facFor portrait.height (folded 0).2 (folded 2).2 : FloatVal exact).toInt32.toInt.natAbs ≤ 2
    decide +kernel

/-- An accepted round with a ratio `0 / 0`. -/
theorem not_calibration_sound : ¬ ∀ (lcd : Lcd) pos (tp d : AdjData .ideal),
    calibrate lcd pos tp = .accepted d → NoZeroDivisor pos ∧ FactorOk d.xfac ∧ FactorOk d.yfac := by
  intro h
  have hsound := h _ _ _ _ (calibrate_folded ⟨.ofInt 0, .ofInt 0, 0, 0, 0⟩)
  exact hsound.1.diagonals (dist_eq_zero.2 rfl)

end DataRecorder.Touch
