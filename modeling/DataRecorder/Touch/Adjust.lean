/-
  Calibrating the touch screen: `TP_Adjust` (`HARDWARE/TOUCH/touch.c`).

  A round takes four points.  `calibrate` compares the distances between them and
  computes the factors; a round that fails is repeated.  `TP_Adjust` ends with a
  round that passes, or when nothing is pressed for a thousand scans.

  * `tempOf_calibrate`: the factors of a round that passes are not stored as zero.
-/
import Mathlib.Data.Nat.Sqrt
import DataRecorder.Touch.Scan

namespace DataRecorder.Touch

open Base

variable {A : Arithmetic}

/-- The size of the display.  `LCD_Display_Dir` sets it to between 240 and 800. -/
structure Lcd where
  width : UInt16
  height : UInt16
  width_gt : 40 < width.toNat
  height_gt : 40 < height.toNat

def portrait : Lcd := ⟨240, 320, by decide, by decide⟩

abbrev Point := UInt16 × UInt16

/-- The distance between two points: `sqrt(tem1 + tem2)`, cut to a `u16`. -/
def dist (p q : Point) : UInt16 :=
  let tem1 := UInt32.ofNat ((p.1.toNat : ℤ) - q.1.toNat).natAbs
  let tem2 := UInt32.ofNat ((p.2.toNat : ℤ) - q.2.toNat).natAbs
  UInt16.ofNat (tem1 * tem1 + tem2 * tem2).toNat.sqrt

/-- `fac = (float)d1 / d2` is not between `0.95` and `1.05`. -/
def badRatio (A : Arithmetic) (d1 d2 : UInt16) : Bool :=
  let fac : FloatVal A.single := (FloatVal.ofInt d1.toNat).div (.ofInt d2.toNat)
  fac.lt (.ofRat (95 / 100) : FloatVal A.double) || (.ofRat (105 / 100) : FloatVal A.double).lt fac

/-- `(float)(size - 40) / (b - a)`. -/
def facFor {R : Rounding} (size a b : UInt16) : FloatVal R :=
  (FloatVal.ofInt ((size.toNat : ℤ) - 40)).div (.ofInt ((b.toNat : ℤ) - a.toNat))

/-- `(size - fac * (b + a)) / 2`, as a `short`. -/
def offFor {R : Rounding} (fac : FloatVal R) (size a b : UInt16) : Int16 :=
  (((FloatVal.ofInt size.toNat).sub (fac.mul (.ofInt ((b.toNat : ℤ) + a.toNat)))).div
    (.ofInt 2)).toInt32.toInt16

inductive Verdict (A : Arithmetic) where
  /-- the distances do not match -/
  | mismatch
  /-- a factor is too large: `touchtype` is changed -/
  | readjust (tp : AdjData A)
  | accepted (tp : AdjData A)

/-- The round of `TP_Adjust` for the points `pos`. -/
def calibrate (lcd : Lcd) (pos : ℕ → Point) (tp : AdjData A) : Verdict A :=
  if badRatio A (dist (pos 0) (pos 1)) (dist (pos 2) (pos 3)) ∨ dist (pos 0) (pos 1) = 0 ∨
      dist (pos 2) (pos 3) = 0 then .mismatch
  else if badRatio A (dist (pos 0) (pos 2)) (dist (pos 1) (pos 3)) then .mismatch
  else if badRatio A (dist (pos 1) (pos 2)) (dist (pos 0) (pos 3)) then .mismatch
  else
    let xfac : FloatVal A.single := facFor lcd.width (pos 0).1 (pos 1).1
    let xoff := offFor xfac lcd.width (pos 0).1 (pos 1).1
    let yfac : FloatVal A.single := facFor lcd.height (pos 0).2 (pos 2).2
    let yoff := offFor yfac lcd.height (pos 0).2 (pos 2).2
    if 2 < xfac.toInt32.toInt.natAbs ∨ 2 < yfac.toInt32.toInt.natAbs then
      .readjust ⟨xfac, yfac, xoff, yoff, if tp.touchtype = 0 then 1 else 0⟩
    else .accepted ⟨xfac, yfac, xoff, yoff, tp.touchtype⟩

/-! ## The loop -/

structure Adjust (A : Arithmetic) where
  tp : TpDev A
  cnt : ℕ
  pos : ℕ → Point
  outtime : UInt16

/-- What an iteration leads to, or the loop. -/
inductive Ending (A : Arithmetic) (σ : Type) where
  | running (s : σ)
  | accepted (tp : TpDev A)
  | timedOut (tp : TpDev A)

def Adjust.tick (s : Adjust A) : Ending A (Adjust A) :=
  if 1000 < s.outtime + 1 then .timedOut s.tp else .running { s with outtime := s.outtime + 1 }

def Adjust.step (lcd : Lcd) (s : Adjust A) (x : Sample) : Ending A (Adjust A) :=
  let tp := tpScan true x s.tp
  if tp.sta &&& 0xc0 = tpCathPres then
    let tp := { tp with sta := tp.sta &&& ~~~tpCathPres }
    let pos := Function.update s.pos s.cnt (tp.x0, tp.y0)
    if s.cnt + 1 = 4 then
      match calibrate lcd pos tp.toAdjData with
      | .mismatch => .running ⟨tp, 0, pos, 0⟩
      | .readjust d => .running ⟨{ tp with toAdjData := d }.selectAxes, 0, pos, 0⟩
      | .accepted d => .accepted { tp with toAdjData := d }
    else Adjust.tick ⟨tp, s.cnt + 1, pos, 0⟩
  else Adjust.tick { s with tp := tp }

/-- The loop of `TP_Adjust`, for as many scans as are given. -/
def Adjust.loop (lcd : Lcd) : Adjust A → List Sample → Ending A Unit
  | _, [] => .running ()
  | s, x :: xs =>
    match s.step lcd x with
    | .running s' => loop lcd s' xs
    | .accepted tp => .accepted tp
    | .timedOut tp => .timedOut tp

def Adjust.start (tp : TpDev A) : Adjust A :=
  ⟨{ tp with sta := 0, xfac := .ofInt 0 }, 0, fun _ => (0, 0), 0⟩

/-! ## Factors that are not zero -/

/-- The distances between the points match: no side of the quadrilateral is too long or too short
for the opposite one, nor a diagonal for the other. -/
structure Matching (A : Arithmetic) (pos : ℕ → Point) : Prop where
  rows : badRatio A (dist (pos 0) (pos 1)) (dist (pos 2) (pos 3)) = false
  row₁ : dist (pos 0) (pos 1) ≠ 0
  row₂ : dist (pos 2) (pos 3) ≠ 0
  columns : badRatio A (dist (pos 0) (pos 2)) (dist (pos 1) (pos 3)) = false
  diagonals : badRatio A (dist (pos 1) (pos 2)) (dist (pos 0) (pos 3)) = false

/-- The calibration that is computed from the points `pos`. -/
def factorsOf (lcd : Lcd) (pos : ℕ → Point) (touchtype : UInt8) : AdjData A :=
  let xfac : FloatVal A.single := facFor lcd.width (pos 0).1 (pos 1).1
  let yfac : FloatVal A.single := facFor lcd.height (pos 0).2 (pos 2).2
  ⟨xfac, yfac, offFor xfac lcd.width (pos 0).1 (pos 1).1, offFor yfac lcd.height (pos 0).2 (pos 2).2,
    touchtype⟩

/-- **The rounds that pass.** -/
theorem calibrate_accepted_iff {lcd : Lcd} {pos : ℕ → Point} {tp d : AdjData A} :
    calibrate lcd pos tp = .accepted d ↔ Matching A pos ∧ d = factorsOf lcd pos tp.touchtype ∧
      d.xfac.toInt32.toInt.natAbs ≤ 2 ∧ d.yfac.toInt32.toInt.natAbs ≤ 2 := by
  constructor
  · intro h
    unfold calibrate at h
    split at h
    · cases h
    next hrows =>
    split at h
    · cases h
    next hcolumns =>
    split at h
    · cases h
    next hdiagonals =>
    dsimp only at h
    split at h
    · cases h
    next hfac =>
    obtain rfl := Verdict.accepted.inj h
    simp only [not_or, Nat.not_lt] at hrows hfac
    exact ⟨⟨by simpa using hrows.1, hrows.2.1, hrows.2.2, by simpa using hcolumns, by simpa using hdiagonals⟩,
      rfl, hfac.1, hfac.2⟩
  · rintro ⟨⟨hrows, hrow₁, hrow₂, hcolumns, hdiagonals⟩, rfl, hx, hy⟩
    have hfirst : ¬ (badRatio A (dist (pos 0) (pos 1)) (dist (pos 2) (pos 3)) = true ∨
        dist (pos 0) (pos 1) = 0 ∨ dist (pos 2) (pos 3) = 0) := by
      simp [hrows, hrow₁, hrow₂]
    unfold calibrate
    rw [if_neg hfirst, if_neg (by simp [hcolumns]), if_neg (by simp [hdiagonals])]
    exact if_neg (by simpa only [not_or, Nat.not_lt] using ⟨hx, hy⟩)

theorem calibrate_accepted {lcd : Lcd} {pos : ℕ → Point} {tp d : AdjData A}
    (h : calibrate lcd pos tp = .accepted d) :
    d.xfac = facFor lcd.width (pos 0).1 (pos 1).1 ∧ d.yfac = facFor lcd.height (pos 0).2 (pos 2).2 ∧
      d.xfac.toInt32.toInt.natAbs ≤ 2 ∧ d.yfac.toInt32.toInt.natAbs ≤ 2 := by
  obtain ⟨-, rfl, hx, hy⟩ := calibrate_accepted_iff.1 h
  exact ⟨rfl, rfl, hx, hy⟩

/-- Two readings that coincide give a factor that is not accepted. -/
theorem natAbs_facFor_self {R : Rounding} {size a : UInt16} {q : ℚ}
    (hsize : (FloatVal.ofInt ((size.toNat : ℤ) - 40) : FloatVal R).val = .num q) (hq : q ≠ 0)
    (hzero : (FloatVal.ofInt 0 : FloatVal R).val = .num 0) :
    2 < (facFor size a a : FloatVal R).toInt32.toInt.natAbs := by
  rw [facFor, Int.sub_self, FloatVal.div, hsize, hzero]
  simp only [if_true, if_neg hq]
  by_cases hneg : q < 0
  · simp [hneg, FloatVal.inf, FloatVal.toInt32]
  · simp [hneg, FloatVal.inf, FloatVal.toInt32]
    decide

section
variable {size a b : UInt16}

theorem within_million : (FloatVal.ofInt (R := binary32.rounding) 100000000).Within (100000000 / 2) (2 * 100000000) :=
  FloatVal.within_ofInt (by norm_num [binary32]) (by norm_num [binary32]) (by norm_num) (by norm_num)

theorem within_u16 {z : ℤ} (h₀ : z ≠ 0) (h : |z| ≤ 65535) :
    (FloatVal.ofInt (R := binary32.rounding) z).Within (1 / 2) (2 * 65535) :=
  FloatVal.within_ofInt (by norm_num [binary32]) (by norm_num [binary32])
    (by exact_mod_cast Int.one_le_abs h₀) (by exact_mod_cast h)

theorem ne_of_facFor (hsize : 40 < size.toNat)
    (h : (facFor size a b : FloatVal binary32.rounding).toInt32.toInt.natAbs ≤ 2) : a ≠ b := by
  rintro rfl
  obtain ⟨q, hq, hl, -⟩ := within_u16 (z := (size.toNat : ℤ) - 40) (by omega) (by
    have := size.toNat_lt
    rw [abs_le]; omega)
  have hq₀ : q ≠ 0 := by
    rintro rfl
    norm_num at hl
  exact absurd h (Nat.not_le.2 (natAbs_facFor_self hq hq₀ (by decide +kernel)))

theorem within_facFor (hsize : 40 < size.toNat) (h : a ≠ b) :
    (facFor size a b : FloatVal binary32.rounding).Within
      (1 / 2 / (2 * 65535) / 2) (2 * (2 * 65535 / (1 / 2))) := by
  have hs := size.toNat_lt
  have ha := a.toNat_lt
  have hb := b.toNat_lt
  have hab : (b.toNat : ℤ) - a.toNat ≠ 0 := fun h₀ => h (UInt16.toNat_inj.1 (by omega))
  exact (within_u16 (by omega) (by rw [abs_le]; omega)).div
    (within_u16 hab (by rw [abs_le]; omega)) (by norm_num) (by norm_num)
    (by norm_num [binary32]) (by norm_num [binary32])

theorem tempOf_facFor (hsize : 40 < size.toNat) (h : a ≠ b) :
    tempOf (A := .ieee) (facFor size a b) ≠ 0 :=
  ((within_facFor hsize h).mul within_million (by norm_num) (by norm_num [binary32])
    (by norm_num [binary32])).toInt32_ne_zero (by norm_num)

end

/-- **The factors of a round that passes** are not stored as zero. -/
theorem tempOf_calibrate {lcd : Lcd} {pos : ℕ → Point} {tp d : AdjData .ieee}
    (h : calibrate lcd pos tp = .accepted d) : tempOf d.xfac ≠ 0 ∧ tempOf d.yfac ≠ 0 := by
  obtain ⟨hx, hy, hx₂, hy₂⟩ := calibrate_accepted h
  rw [hx] at hx₂ ⊢
  rw [hy] at hy₂ ⊢
  exact ⟨tempOf_facFor lcd.width_gt (ne_of_facFor lcd.width_gt hx₂),
    tempOf_facFor lcd.height_gt (ne_of_facFor lcd.height_gt hy₂)⟩

theorem facOf_ne_zero {t : Int32} (h : t ≠ 0) : (facOf (A := .ieee) t).val ≠ .num 0 := by
  have h₀ : t.toInt ≠ 0 := fun h₀ => h (Int32.toInt_inj.1 h₀)
  have hle := t.le_toInt
  have hlt := t.toInt_lt
  have ht : (FloatVal.ofInt (R := binary32.rounding) t.toInt).Within (1 / 2) (2 * 2147483648) :=
    FloatVal.within_ofInt (by norm_num [binary32]) (by norm_num [binary32])
      (by exact_mod_cast Int.one_le_abs h₀) (by
        have : |t.toInt| ≤ 2147483648 := by rw [abs_le]; omega
        exact_mod_cast this)
  exact (ht.div within_million (by norm_num) (by norm_num) (by norm_num [binary32])
    (by norm_num [binary32])).ne_zero (by norm_num)

end DataRecorder.Touch
