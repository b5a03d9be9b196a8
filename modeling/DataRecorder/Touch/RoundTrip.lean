/-
  Saving a calibration and loading it again (`TP_Save_Adjdata` and
  `TP_Get_Adjdata` in `HARDWARE/TOUCH/touch.c`), with factors that are multiples
  of `1e-8`.

  * `tempOf_fixedPoint`, `facOf_eq_fixedPoint`: a factor is stored without loss;
  * `saved_outside`: only the fourteen bytes of the record and its marker are
    written;
  * `adjdata_roundTrip`: all five fields come back.
-/
import DataRecorder.Touch.Eeprom

namespace DataRecorder.Touch

open Base

/-- The factor `t * 1e-8`. -/
def fixedPoint (t : Int32) : FloatVal Arithmetic.ideal.single := .ofRat (t.toInt / 100000000)

theorem tempOf_fixedPoint (t : Int32) : tempOf (A := .ideal) (fixedPoint t) = t := by
  have hval : ((fixedPoint t).mul (.ofInt 100000000)).val = .num (t.toInt : ℤ) := by
    rw [FloatVal.val_mul (a := t.toInt / 100000000) (b := (100000000 : ℤ)) rfl rfl]
    push_cast
    rw [div_mul_cancel₀ _ (by norm_num)]
  have hle := t.le_toInt
  have hlt := t.toInt_lt
  apply Int32.toInt_inj.1
  rw [tempOf, FloatVal.toInt32_toInt hval, truncate_intCast]
  omega

theorem facOf_eq_fixedPoint (t : Int32) : facOf (A := .ideal) t = fixedPoint t := by
  have hval : (facOf (A := .ideal) t).val = (fixedPoint t).val := by
    rw [facOf, FloatVal.val_div (a := t.toInt) (b := (100000000 : ℤ)) rfl rfl (by norm_num)]
    push_cast
    rfl
  exact FloatVal.ext_val hval

/-- A calibration whose factors are multiples of `1e-8` is stored as it is. -/
theorem stored_fixedPoint {xfac yfac : Int32} {xoff yoff : Int16} {touchtype : UInt8} :
    (⟨fixedPoint xfac, fixedPoint yfac, xoff, yoff, touchtype⟩ : AdjData .ideal).stored =
      ⟨fixedPoint xfac, fixedPoint yfac, xoff, yoff, touchtype⟩ := by
  simp only [AdjData.stored, tempOf_fixedPoint, facOf_eq_fixedPoint]

section
variable {A : Arithmetic}

/-- **The frame**: the addresses 40 to 53. -/
theorem saved_outside (e : Eeprom) (tp : AdjData A) {i : ℕ} (h : i < 40 ∨ 53 < i) : saved e tp i = e i := by
  rw [saved_eq]
  refine blit_outside e ?_
  simp only [saveAddrBase, List.length_append, recordBytes_length, List.length_singleton]
  omega

/-- What is loaded after a calibration was saved. -/
theorem tpGetAdjdata_saved (e : Eeprom) (d : AdjData A) (tp : TpDev A) :
    tpGetAdjdata (saved e d) tp = some { tp with toAdjData := d.stored }.selectAxes := by
  rw [tpGetAdjdata_of_marker tp (saved_marker e d), readAdj_of_slice (slice_saved e d)]

theorem selectAxes_swapped {tp : TpDev A} (h : tp.touchtype ≠ 0) :
    tp.selectAxes.cmdRdx = 0x90 ∧ tp.selectAxes.cmdRdy = 0xD0 := by
  rw [TpDev.selectAxes, if_pos h]
  exact ⟨rfl, rfl⟩

theorem selectAxes_straight {tp : TpDev A} (h : tp.touchtype = 0) :
    tp.selectAxes.cmdRdx = 0xD0 ∧ tp.selectAxes.cmdRdy = 0x90 := by
  rw [TpDev.selectAxes, if_neg (not_not.2 h)]
  exact ⟨rfl, rfl⟩

end

/-- **The record of a calibration** is read back whole, whatever the EEPROM has held; the commands
follow the touch type; and nothing else in the EEPROM is changed. -/
theorem adjdata_roundTrip (e : Eeprom) (xfac yfac : Int32) (xoff yoff : Int16) (touchtype : UInt8)
    (tp : TpDev .ideal) :
    ∃ tp', tpGetAdjdata (saved e ⟨fixedPoint xfac, fixedPoint yfac, xoff, yoff, touchtype⟩) tp = some tp' ∧
      tp'.toAdjData = ⟨fixedPoint xfac, fixedPoint yfac, xoff, yoff, touchtype⟩ ∧
      (tp'.cmdRdx = 0x90 ∧ tp'.cmdRdy = 0xD0 ↔ touchtype ≠ 0) ∧
      (tp'.cmdRdx = 0xD0 ∧ tp'.cmdRdy = 0x90 ↔ touchtype = 0) ∧
      ∀ i, i < 40 ∨ 53 < i →
        saved e (⟨fixedPoint xfac, fixedPoint yfac, xoff, yoff, touchtype⟩ : AdjData .ideal) i = e i := by
  refine ⟨_, tpGetAdjdata_saved e _ tp, ?_, ?_, ?_, fun i hi => saved_outside e _ hi⟩
  · rw [TpDev.selectAxes_toAdjData]
    exact stored_fixedPoint
  · constructor
    · rintro ⟨hx, -⟩ h
      rw [(selectAxes_straight h).1] at hx
      exact absurd hx (by decide)
    · intro h
      exact selectAxes_swapped h
  · constructor
    · rintro ⟨hx, -⟩
      by_contra h
      rw [(selectAxes_swapped h).1] at hx
      exact absurd hx (by decide)
    · intro h
      exact selectAxes_straight h

end DataRecorder.Touch
