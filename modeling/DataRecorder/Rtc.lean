/-
  The clock: the globals that `rtc_read` sets, and their chronological order.
-/
import Mathlib.Data.Prod.Lex

namespace DataRecorder

/-- `Clock_time`, the type of the global `RTC_time`. -/
structure ClockTime where
  hours : UInt8
  minutes : UInt8
  seconds : UInt8
deriving DecidableEq

/-- `lv_calendar_date_t`, the type of the global `today`.  The clock yields no
    negative month or day. -/
structure CalendarDate where
  year : UInt16
  month : UInt8
  day : UInt8
deriving DecidableEq

/-- The globals that `rtc_read` sets: `RTC_time` and `today`. -/
structure Rtc where
  time : ClockTime
  today : CalendarDate
deriving DecidableEq

/-! ## Minutes -/

/-- A minute: year, month, day, hours and minutes, in chronological order. -/
abbrev Minute := ℕ ×ₗ ℕ ×ₗ ℕ ×ₗ ℕ ×ₗ ℕ

namespace Rtc

def minute (r : Rtc) : Minute :=
  toLex (r.today.year.toNat, toLex (r.today.month.toNat, toLex (r.today.day.toNat,
    toLex (r.time.hours.toNat, r.time.minutes.toNat))))

/-- The clock reading, in chronological order. -/
def stamp (r : Rtc) : Minute ×ₗ ℕ := toLex (r.minute, r.time.seconds.toNat)

theorem minute_eq_iff {r r' : Rtc} : r.minute = r'.minute ↔
    r.today = r'.today ∧ r.time.hours = r'.time.hours ∧ r.time.minutes = r'.time.minutes := by
  obtain ⟨⟨h, m, s⟩, y, mo, d⟩ := r
  obtain ⟨⟨h', m', s'⟩, y', mo', d'⟩ := r'
  simp [minute, UInt8.toNat_inj, UInt16.toNat_inj, and_assoc]

theorem minute_mono {r r' : Rtc} (h : r.stamp ≤ r'.stamp) : r.minute ≤ r'.minute :=
  Prod.Lex.monotone_fst _ _ h

end Rtc

end DataRecorder
