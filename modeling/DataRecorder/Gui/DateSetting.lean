/-
  Setting the date (`event_handler` in `GUI_APP/WIN/calendar_win.c`, `rtc_read`
  in `HARDWARE/Src/rtc.c`, `HAL_RTC_SetDate` and `HAL_RTC_GetDate`).

  The handler takes year, month and day from three rollers, and leaves the day of
  the week as the stack happens to hold it.  In the date register the upper bits of
  this field lie over the year.

  * `getDate_packDate`: what is read of a date that was packed;
  * `dateTakesEffect_iff`: when the date that was selected takes effect.
-/
import Mathlib.Tactic.IntervalCases
import DataRecorder.Rtc
import DataRecorder.Hal.Waiting

namespace DataRecorder

/-! ## The date register -/

/-- `RTC_DateTypeDef`. -/
structure RtcDate where
  weekDay : UInt8
  month : UInt8
  date : UInt8
  year : UInt8
deriving DecidableEq

inductive RtcFormat where
  | bin
  | bcd
deriving DecidableEq

/-- The loop of `RTC_ByteToBcd2`, which takes 25 passes at most. -/
def bcdLoop : ℕ → UInt8 → UInt8 → UInt8
  | 0, bcdhigh, value => bcdhigh <<< 4 ||| value
  | n + 1, bcdhigh, value =>
    if value ≥ 10 then bcdLoop n (bcdhigh + 1) (value - 10) else bcdhigh <<< 4 ||| value

def rtcByteToBcd2 (value : UInt8) : UInt8 := bcdLoop 25 0 value

def rtcBcd2ToByte (value : UInt8) : UInt8 := ((value &&& 0xF0) >>> 4) * 10 + (value &&& 0x0F)

def rtcDrReservedMask : UInt32 := 0x00FFFF3F

/-- The four fields of a date, in the register. -/
def packDate (year month date weekDay : UInt8) : UInt32 :=
  year.toUInt32 <<< 16 ||| month.toUInt32 <<< 8 ||| date.toUInt32 ||| weekDay.toUInt32 <<< 13

/-- What `HAL_RTC_SetDate` meets: the lock of the handle, whether the initialization mode is entered,
the bit `BYPSHAD`, and whether the shadow registers are synchronized in time. -/
structure RtcPort where
  locked : Bool
  initMode : Bool
  bypshad : Bool
  synchro : Bool

/-- `HAL_RTC_SetDate`: its result, and the register `DR`. -/
def halRtcSetDate (port : RtcPort) (sDate : RtcDate) (format : RtcFormat) (dr : UInt32) : HalStatus × UInt32 :=
  if port.locked then (.busy, dr)
  else
    let month :=
      if format = .bin ∧ sDate.month &&& 0x10 = 0x10 then (sDate.month &&& ~~~(0x10 : UInt8)) + 0x0A
      else sDate.month
    let datetmpreg := match format with
      | .bin => packDate (rtcByteToBcd2 sDate.year) (rtcByteToBcd2 month) (rtcByteToBcd2 sDate.date)
          sDate.weekDay
      | .bcd => packDate sDate.year month sDate.date sDate.weekDay
    if ¬ port.initMode then (.error, dr)
    else (if port.bypshad ∨ port.synchro then .ok else .error, datetmpreg &&& rtcDrReservedMask)

/-- `HAL_RTC_GetDate`, with the masks of the fields. -/
def halRtcGetDate (format : RtcFormat) (dr : UInt32) : RtcDate :=
  let datetmpreg := dr &&& rtcDrReservedMask
  let sDate : RtcDate :=
    { year := ((datetmpreg &&& 0x00FF0000) >>> 16).toUInt8
      month := ((datetmpreg &&& 0x00001F00) >>> 8).toUInt8
      date := (datetmpreg &&& 0x0000003F).toUInt8
      weekDay := ((datetmpreg &&& 0x0000E000) >>> 13).toUInt8 }
  match format with
  | .bin =>
    { sDate with
      year := rtcBcd2ToByte sDate.year
      month := rtcBcd2ToByte sDate.month
      date := rtcBcd2ToByte sDate.date }
  | .bcd => sDate

/-- `today`, as `rtc_read` sets it. -/
def rtcReadToday (dr : UInt32) : CalendarDate :=
  let d := halRtcGetDate .bin dr
  ⟨d.year.toUInt16 + 2000, d.month, d.date⟩

/-! ## The handler -/

/-- What is selected in the three rollers: their options are `00` to `59`, `01` to `12` and `01` to
`31`. -/
structure DateRollers where
  year : Fin 60
  month : Fin 12
  day : Fin 31

/-- The date that is selected. -/
def DateRollers.selected (r : DateRollers) : CalendarDate :=
  ⟨UInt16.ofNat (2000 + r.year), UInt8.ofNat (r.month + 1), UInt8.ofNat (r.day + 1)⟩

/-- `event_handler` for the Enter button; `stack` is what its variable `RTC_DateStructure` holds. -/
def dateEnter (r : DateRollers) (stack : RtcDate) (port : RtcPort) (dr : UInt32) : UInt32 :=
  let sDate : RtcDate :=
    { stack with
      year := UInt8.ofNat r.year
      month := UInt8.ofNat r.month + 1
      date := UInt8.ofNat r.day + 1 }
  (halRtcSetDate port sDate .bin dr).2

/-! ## Packing and unpacking -/

section
variable (year month date weekDay : UInt8)

/-- The register as `HAL_RTC_GetDate` sees it. -/
def storedDate : UInt32 := packDate year month date weekDay &&& rtcDrReservedMask &&& rtcDrReservedMask

/-- The day of the week lies over the year. -/
theorem year_storedDate :
    ((storedDate year month date weekDay &&& 0x00FF0000) >>> 16).toUInt8 = year ||| weekDay >>> 3 := by
  apply UInt8.toBitVec_inj.1
  ext i hi
  simp [storedDate, packDate, rtcDrReservedMask]
  interval_cases i <;> simp

theorem month_storedDate :
    ((storedDate year month date weekDay &&& 0x00001F00) >>> 8).toUInt8 = month &&& 0x1F := by
  apply UInt8.toBitVec_inj.1
  ext i hi
  simp [storedDate, packDate, rtcDrReservedMask]
  interval_cases i <;> simp

theorem date_storedDate :
    (storedDate year month date weekDay &&& 0x0000003F).toUInt8 = date &&& 0x3F := by
  apply UInt8.toBitVec_inj.1
  ext i hi
  simp [storedDate, packDate, rtcDrReservedMask]

/-- A date that was written in the binary format, read again. -/
theorem rtcReadToday_packDate :
    rtcReadToday (packDate year month date weekDay &&& rtcDrReservedMask) =
      ⟨(rtcBcd2ToByte (year ||| weekDay >>> 3)).toUInt16 + 2000, rtcBcd2ToByte (month &&& 0x1F),
        rtcBcd2ToByte (date &&& 0x3F)⟩ := by
  rw [← year_storedDate year month date weekDay, ← month_storedDate year month date weekDay,
    ← date_storedDate year month date weekDay]
  rfl

end

theorem rtcBcd2ToByte_month (m : Fin 12) :
    rtcBcd2ToByte (rtcByteToBcd2 (UInt8.ofNat (m + 1)) &&& 0x1F) = UInt8.ofNat (m + 1) := by
  revert m
  decide

theorem rtcBcd2ToByte_date (d : Fin 31) :
    rtcBcd2ToByte (rtcByteToBcd2 (UInt8.ofNat (d + 1)) &&& 0x3F) = UInt8.ofNat (d + 1) := by
  revert d
  decide

theorem rtcBcd2ToByte_year (y : Fin 60) :
    rtcByteToBcd2 (UInt8.ofNat y) < 0x60 ∧ rtcBcd2ToByte (rtcByteToBcd2 (UInt8.ofNat y)) = UInt8.ofNat y := by
  revert y
  decide

theorem toUInt16_add_eq_iff (x : UInt8) {n : ℕ} (hn : n < 256) :
    x.toUInt16 + 2000 = UInt16.ofNat (2000 + n) ↔ x = UInt8.ofNat n := by
  have hx := x.toNat_lt
  rw [← UInt16.toNat_inj, ← UInt8.toNat_inj]
  simp
  omega

theorem toNat_rtcBcd2ToByte {b : UInt8} (hb : b.toNat < 128) :
    (rtcBcd2ToByte b).toNat = b.toNat / 16 * 10 + b.toNat % 16 := by
  have hmask : (b &&& 0xF0) >>> 4 = b >>> 4 := by
    apply UInt8.toBitVec_inj.1
    ext i hi
    interval_cases i <;> simp
  have hhigh : ((b &&& 0xF0) >>> 4).toNat = b.toNat / 16 := by
    rw [hmask, UInt8.toNat_shiftRight, Nat.shiftRight_eq_div_pow]
    rfl
  have hlow : (b &&& 0x0F).toNat = b.toNat % 16 := by
    simp [Nat.and_two_pow_sub_one_eq_mod _ 4]
  simp only [rtcBcd2ToByte, UInt8.toNat_add, UInt8.toNat_mul, hhigh, hlow]
  simp
  omega

/-- More bits make a digit larger, and so the number. -/
theorem rtcBcd2ToByte_or {b v : UInt8} (hb : b.toNat < 128) (hv : v.toNat < 128) :
    rtcBcd2ToByte (b ||| v) = rtcBcd2ToByte b ↔ b ||| v = b := by
  refine ⟨fun h => ?_, fun h => by rw [h]⟩
  have hor : (b ||| v).toNat = b.toNat ||| v.toNat := UInt8.toNat_or b v
  have hlt : (b ||| v).toNat < 128 := by
    rw [hor]
    exact @Nat.or_lt_two_pow _ _ 7 hb hv
  have hhigh : b.toNat / 16 ≤ (b ||| v).toNat / 16 := by
    rw [hor]
    exact Nat.div_le_div_right Nat.left_le_or
  have hlow : b.toNat % 16 ≤ (b ||| v).toNat % 16 := by
    rw [hor, @Nat.or_mod_two_pow _ _ 4]
    exact Nat.left_le_or
  have hnat := congrArg UInt8.toNat h
  rw [toNat_rtcBcd2ToByte hlt, toNat_rtcBcd2ToByte hb] at hnat
  apply UInt8.toNat_inj.1
  omega

/-! ## The date that was selected -/

/-- The register is written. -/
structure RtcPort.Writes (port : RtcPort) : Prop where
  unlocked : port.locked = false
  initMode : port.initMode = true

/-- What the stack holds for the day of the week leaves the year as it is. -/
def DateRollers.Harmless (r : DateRollers) (weekDay : UInt8) : Prop :=
  rtcByteToBcd2 (UInt8.ofNat r.year) ||| weekDay >>> 3 = rtcByteToBcd2 (UInt8.ofNat r.year)

/-- None of the months has the bit `0x10`. -/
theorem dateEnter_eq (r : DateRollers) (stack : RtcDate) {port : RtcPort} (dr : UInt32) (hport : port.Writes) :
    dateEnter r stack port dr = packDate (rtcByteToBcd2 (UInt8.ofNat r.year))
      (rtcByteToBcd2 (UInt8.ofNat (r.month + 1))) (rtcByteToBcd2 (UInt8.ofNat (r.day + 1))) stack.weekDay &&&
        rtcDrReservedMask := by
  have hmonth : UInt8.ofNat (r.month + 1) &&& 0x10 ≠ 0x10 := by
    generalize r.month = m
    revert m
    decide
  have hmonth' : UInt8.ofNat r.month + 1 &&& 0x10 ≠ 0x10 := fun h => hmonth (by simpa using h)
  simp [dateEnter, halRtcSetDate, hport.unlocked, hport.initMode, hmonth']

theorem rtcReadToday_dateEnter (r : DateRollers) (stack : RtcDate) {port : RtcPort} (dr : UInt32)
    (hport : port.Writes) : rtcReadToday (dateEnter r stack port dr) =
      ⟨(rtcBcd2ToByte (rtcByteToBcd2 (UInt8.ofNat r.year) ||| stack.weekDay >>> 3)).toUInt16 + 2000,
        UInt8.ofNat (r.month + 1), UInt8.ofNat (r.day + 1)⟩ := by
  rw [dateEnter_eq r stack dr hport, rtcReadToday_packDate, rtcBcd2ToByte_month, rtcBcd2ToByte_date]

/-- **The date that was selected is read** if and only if the day of the week, which nobody set, is
harmless. -/
theorem dateTakesEffect_iff (r : DateRollers) (stack : RtcDate) (port : RtcPort) (dr : UInt32)
    (hport : port.Writes) :
    rtcReadToday (dateEnter r stack port dr) = r.selected ↔ r.Harmless stack.weekDay := by
  obtain ⟨hlt, hyear⟩ := rtcBcd2ToByte_year r.year
  have hv : (stack.weekDay >>> 3).toNat < 128 := by
    have hlt := stack.weekDay.toNat_lt
    rw [UInt8.toNat_shiftRight, Nat.shiftRight_eq_div_pow]
    simp
    omega
  rw [rtcReadToday_dateEnter r stack dr hport, DateRollers.selected, DateRollers.Harmless,
    ← rtcBcd2ToByte_or (Nat.lt_trans hlt (by decide)) hv, hyear, ← toUInt16_add_eq_iff _ (by omega)]
  simp

/-- In 2021 a day of the week of 15 is harmless: it sets a bit that the year has set. -/
theorem dateTakesEffect_2021 :
    rtcReadToday (dateEnter ⟨21, 3, 25⟩ ⟨15, 0, 0, 0⟩ ⟨false, true, false, true⟩ 0) =
      (⟨21, 3, 25⟩ : DateRollers).selected :=
  (dateTakesEffect_iff ⟨21, 3, 25⟩ ⟨15, 0, 0, 0⟩ ⟨false, true, false, true⟩ 0 ⟨rfl, rfl⟩).2
    (by unfold DateRollers.Harmless; decide)

/-- The first of January 2000 is set, with 8 left for the day of the week: 2001 is read. -/
theorem year_of_weekDay : ¬ ∀ (r : DateRollers) (stack : RtcDate) (port : RtcPort) (dr : UInt32), port.Writes →
    rtcReadToday (dateEnter r stack port dr) = r.selected := by
  intro h
  exact absurd (h ⟨0, 0, 0⟩ ⟨8, 0, 0, 0⟩ ⟨false, true, false, true⟩ 0 ⟨rfl, rfl⟩) (by decide)

end DataRecorder
