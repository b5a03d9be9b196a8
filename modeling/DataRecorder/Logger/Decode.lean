/-
  Reading a log back: the lines that `save_data_entry` formats
  (`HARDWARE/Src/dht11.c`) determine the records.

  `parseLog` splits a text at its newlines and reads the five numbers of each
  line.

  * `parseLine_strData`: a line is read back;
  * `parseLog_csvText`: so is a log, and no two logs have the same text.
-/
import DataRecorder.Logger.WholeLines

namespace DataRecorder

open Base

/-- A record: a sample, and the time at which it was consumed. -/
abbrev Record := SensorData × ClockTime

/-- The text of a log: the lines of its records, one after the other. -/
def csvText (rs : List Record) : List UInt8 := rs.flatMap fun r => strData r.1 r.2

/-- The lines in the ring buffer are the text of a log. -/
theorem csvLines_eq_csvText (xs : List Consumed) :
    csvLines xs = csvText (xs.map fun x => (x.sample, x.rtc.time)) := by
  rw [csvText, List.flatMap_map]
  rfl

/-! ## Parsing -/

instance (b : UInt8) : Decidable (IsDigit b) := inferInstanceAs (Decidable (_ ∧ _))

/-- A decimal number that fits a byte. -/
def parseByte (l : List UInt8) : Option UInt8 :=
  if l ≠ [] ∧ l.all (fun b => IsDigit b) ∧ numeral l < 256 then some (UInt8.ofNat (numeral l)) else none

/-- Three numbers between colons. -/
def parseTime (l : List UInt8) : Option ClockTime :=
  match l.splitOn 58 with
  | [hours, minutes, seconds] => do
    return ⟨← parseByte hours, ← parseByte minutes, ← parseByte seconds⟩
  | _ => none

/-- Two numbers and a time between commas. -/
def parseLine (l : List UInt8) : Option Record :=
  match l.splitOn 44 with
  | [temperature, humidity, time] => do
    return (⟨← parseByte temperature, ← parseByte humidity⟩, ← parseTime time)
  | _ => none

/-- Lines, each ended by a newline. -/
def parseLog (text : List UInt8) : Option (List Record) :=
  let lines := text.splitOn 10
  if lines.getLast? = some [] then lines.dropLast.mapM parseLine else none

/-! ## Reading back -/

theorem parseByte_decimal (b : UInt8) : parseByte (decimal b.toNat) = some b := by
  have hdigits : (decimal b.toNat).all (fun b => IsDigit b) :=
    List.all_eq_true.2 fun c hc => decide_eq_true (decimal_isDigit _ c hc)
  unfold parseByte
  rw [numeral_decimal, if_pos ⟨decimal_ne_nil _, hdigits, b.toNat_lt⟩]
  exact congrArg some (UInt8.ofNat_toNat)

/-- Separators are no digits. -/
theorem notMem_decimal {s : UInt8} (hs : ¬ IsDigit s) (n : ℕ) : s ∉ decimal n :=
  not_mem_of_isDigit hs (decimal_isDigit n)

/-- The text of a line, without its newline. -/
def timeText (t : ClockTime) : List UInt8 :=
  decimal t.hours.toNat ++ 58 :: (decimal t.minutes.toNat ++ 58 :: decimal t.seconds.toNat)

def lineText (r : Record) : List UInt8 :=
  decimal r.1.temperature.toNat ++ 44 :: (decimal r.1.humidity.toNat ++ 44 :: timeText r.2)

theorem strData_eq (r : Record) : strData r.1 r.2 = lineText r ++ [10] := by
  have hcomma : ascii "," = [44] := rfl
  have hcolon : ascii ":" = [58] := rfl
  have hnewline : ascii "\n" = [10] := rfl
  simp [strData, lineText, timeText, hcomma, hcolon, hnewline]

theorem notMem_timeText {s : UInt8} (hs : ¬ IsDigit s) (hcolon : s ≠ 58) (t : ClockTime) :
    s ∉ timeText t := by
  simp only [timeText, List.mem_append, List.mem_cons, hcolon, notMem_decimal hs, or_self, not_false_eq_true]

theorem notMem_lineText {s : UInt8} (hs : ¬ IsDigit s) (hcolon : s ≠ 58) (hcomma : s ≠ 44)
    (r : Record) : s ∉ lineText r := by
  simp only [lineText, List.mem_append, List.mem_cons, hcomma, notMem_decimal hs,
    notMem_timeText hs hcolon, or_self, not_false_eq_true]

theorem parseTime_timeText (t : ClockTime) : parseTime (timeText t) = some t := by
  have hcolon (n : ℕ) := notMem_decimal (s := 58) (by decide) n
  unfold parseTime timeText
  rw [List.splitOn_append_cons_self_of_not_mem (hcolon _),
    List.splitOn_append_cons_self_of_not_mem (hcolon _), List.splitOn_eq_singleton (hcolon _)]
  simp [parseByte_decimal]

/-- **A line is read back.** -/
theorem parseLine_lineText (r : Record) : parseLine (lineText r) = some r := by
  have hcomma (n : ℕ) := notMem_decimal (s := 44) (by decide) n
  unfold parseLine lineText
  rw [List.splitOn_append_cons_self_of_not_mem (hcomma _),
    List.splitOn_append_cons_self_of_not_mem (hcomma _),
    List.splitOn_eq_singleton (notMem_timeText (by decide) (by decide) _)]
  simp [parseByte_decimal, parseTime_timeText]

theorem splitOn_csvText (rs : List Record) : (csvText rs).splitOn 10 = rs.map lineText ++ [[]] := by
  induction rs with
  | nil => exact List.splitOn_nil 10
  | cons r rs ih =>
    have hline : csvText (r :: rs) = lineText r ++ 10 :: csvText rs := by
      rw [csvText, List.flatMap_cons, strData_eq, List.append_assoc]
      rfl
    rw [hline, List.splitOn_append_cons_self_of_not_mem
      (notMem_lineText (by decide) (by decide) (by decide) r), ih]
    rfl

theorem mapM_parseLine (rs : List Record) : (rs.map lineText).mapM parseLine = some rs := by
  induction rs with
  | nil => rfl
  | cons r rs ih => simp [parseLine_lineText, ih]

/-- **A log is read back.** -/
theorem parseLog_csvText (rs : List Record) : parseLog (csvText rs) = some rs := by
  unfold parseLog
  rw [splitOn_csvText]
  simp only [List.getLast?_concat, if_true, List.dropLast_concat, mapM_parseLine]

/-! ## The length of a line -/

theorem decimal_length_le (b : UInt8) : (decimal b.toNat).length ≤ 3 :=
  length_decimal_le (by omega) (Nat.lt_trans b.toNat_lt (by omega))

/-- `sizeof(str_data)`. -/
def strDataSize : ℕ := 64

theorem strData_length_le (r : Record) : (strData r.1 r.2).length ≤ 20 := by
  have h₁ := decimal_length_le r.1.temperature
  have h₂ := decimal_length_le r.1.humidity
  have h₃ := decimal_length_le r.2.hours
  have h₄ := decimal_length_le r.2.minutes
  have h₅ := decimal_length_le r.2.seconds
  rw [strData_eq]
  simp only [lineText, timeText, List.length_append, List.length_cons, List.length_nil]
  omega

/-- **The encoding of a log is unambiguous**: its text determines the records, a line fits
`str_data` with its terminator, and the text is read back. -/
theorem csvText_unambiguous : Function.Injective csvText ∧
    (∀ r : Record, (strData r.1 r.2).length + 1 ≤ strDataSize) ∧
    ∀ rs, parseLog (csvText rs) = some rs := by
  refine ⟨fun rs rs' h => ?_, fun r => ?_, parseLog_csvText⟩
  · have hparse := congrArg parseLog h
    rw [parseLog_csvText, parseLog_csvText] at hparse
    exact Option.some.inj hparse
  · have := strData_length_le r
    rw [strDataSize]
    omega

end DataRecorder
