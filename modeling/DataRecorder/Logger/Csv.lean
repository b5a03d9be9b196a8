/-
  The texts that `save_data_entry` formats: the CSV line of a sample and the path
  of the minute file.

  * `strData` is the line `temperature,humidity,hours:minutes:seconds\n`;
  * `csvName` is the path `/sdcard/year-month-day/hours-minutes.csv`, which
    depends on the minute of the clock only (`csvName_eq`) and tells the minutes
    apart (`csvPath_injective`).
-/
import DataRecorder.Base.Decimal
import DataRecorder.Dht11.Driver
import DataRecorder.Rtc

namespace DataRecorder

open Base

/-! ## The CSV line -/

/-- `sprintf(str_data, "%d,%d,%d:%d:%d\n", ...)`. -/
def strData (d : SensorData) (t : ClockTime) : List UInt8 :=
  decimal d.temperature.toNat ++ ascii "," ++ decimal d.humidity.toNat ++ ascii "," ++
    decimal t.hours.toNat ++ ascii ":" ++ decimal t.minutes.toNat ++ ascii ":" ++
    decimal t.seconds.toNat ++ ascii "\n"

theorem strData_ne_nil (d : SensorData) (t : ClockTime) : strData d t ≠ [] := by
  simp [strData, decimal_ne_nil]

theorem strData_length_pos (d : SensorData) (t : ClockTime) : 0 < (strData d t).length :=
  List.length_pos_iff.2 (strData_ne_nil d t)

/-! ## Paths -/

/-- `sprintf(folder_name, "/sdcard/%02d-%02d-%02d", ...)`. -/
def folderName (year month day : ℕ) : List UInt8 :=
  ascii "/sdcard/" ++ decimal02 year ++ ascii "-" ++ decimal02 month ++ ascii "-" ++ decimal02 day

/-- `sprintf(file_name, "%02d-%02d", ...)`. -/
def fileName (hours minutes : ℕ) : List UInt8 := decimal02 hours ++ ascii "-" ++ decimal02 minutes

/-- `sprintf(name, "%s/%s.csv", folder_name, file_name)`. -/
def joinName (folder file : List UInt8) : List UInt8 := folder ++ ascii "/" ++ file ++ ascii ".csv"

def csvName (r : Rtc) : List UInt8 :=
  joinName (folderName r.today.year.toNat r.today.month.toNat r.today.day.toNat)
    (fileName r.time.hours.toNat r.time.minutes.toNat)

def csvPath (m : Minute) : List UInt8 :=
  let ⟨year, m⟩ := ofLex m
  let ⟨month, m⟩ := ofLex m
  let ⟨day, m⟩ := ofLex m
  let ⟨hours, minutes⟩ := ofLex m
  joinName (folderName year month day) (fileName hours minutes)

theorem csvName_eq (r : Rtc) : csvName r = csvPath r.minute := rfl

theorem decimal02_notMem (n : ℕ) {s : UInt8} (hs : ¬ IsDigit s) : s ∉ decimal02 n :=
  not_mem_of_isDigit hs (decimal02_isDigit n)

/-- **Different minutes have different files.** -/
theorem csvPath_injective : Function.Injective csvPath := by
  rintro ⟨y, mo, d, h, mi⟩ ⟨y', mo', d', h', mi'⟩ he
  have hdash : ¬ IsDigit 45 := by simp [IsDigit]
  have hslash : ¬ IsDigit 47 := by simp [IsDigit]
  have hdot : ¬ IsDigit 46 := by simp [IsDigit]
  -- the separators are `-` (45), `/` (47) and `.` (46), none of them a digit
  have he : decimal02 y ++ 45 :: (decimal02 mo ++ 45 :: (decimal02 d ++ 47 :: (decimal02 h ++ 45 ::
      (decimal02 mi ++ 46 :: ascii "csv")))) = decimal02 y' ++ 45 :: (decimal02 mo' ++ 45 ::
      (decimal02 d' ++ 47 :: (decimal02 h' ++ 45 :: (decimal02 mi' ++ 46 :: ascii "csv")))) := by
    have h₁ : ascii "-" = [45] := rfl
    have h₂ : ascii "/" = [47] := rfl
    have h₃ : ascii ".csv" = 46 :: ascii "csv" := rfl
    simp only [csvPath, joinName, folderName, fileName, h₁, h₂, h₃, List.append_assoc,
      List.cons_append, List.nil_append, List.append_cancel_left_eq] at he
    exact he
  obtain ⟨hy, he⟩ := split_unique (decimal02_notMem _ hdash) (decimal02_notMem _ hdash) he
  obtain ⟨hmo, he⟩ := split_unique (decimal02_notMem _ hdash) (decimal02_notMem _ hdash) he
  obtain ⟨hd, he⟩ := split_unique (decimal02_notMem _ hslash) (decimal02_notMem _ hslash) he
  obtain ⟨hh, he⟩ := split_unique (decimal02_notMem _ hdash) (decimal02_notMem _ hdash) he
  obtain ⟨hmi, -⟩ := split_unique (decimal02_notMem _ hdot) (decimal02_notMem _ hdot) he
  rw [decimal02_injective hy, decimal02_injective hmo, decimal02_injective hd,
    decimal02_injective hh, decimal02_injective hmi]

end DataRecorder
