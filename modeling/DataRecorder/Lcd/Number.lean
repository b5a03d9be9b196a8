/-
  Numbers on the display (`LCD_ShowNum`, `LCD_ShowxNum`).

  The digits are taken from the left, each with a power of ten of its own.  The
  flag `enshow` is off until the first digit that is not 0; while it is off, zeros
  are blanked, except the last.

  * `lcdPow_ten`: the powers of ten fit into 32 bits;
  * `showDigits_off`, `showDigits_eq`: what is drawn from any place on, while only
    zeros were seen, and by the whole loop;
  * `lcdShowNum_read`, `lcdShowxNum_read`: the number is read back from what is drawn.
-/
import DataRecorder.Base.Decimal
import DataRecorder.Lcd.Text

namespace DataRecorder.Lcd

open Base

/-- The loop of `LCD_Pow`; `n` multiplications remain. -/
def powLoop (m : UInt8) : ℕ → UInt32 → UInt32
  | 0, result => result
  | n + 1, result => powLoop m n (result * m.toUInt32)

def lcdPow (m n : UInt8) : UInt32 := powLoop m n.toNat 1

section
variable (x y : UInt16) (num : UInt32) (len size : UInt8)

/-- `temp`, the digit in place `t`. -/
def digitAt (t : UInt8) : UInt8 := (num / lcdPow 10 (len - t - 1) % 10).toUInt8

/-- The call for place `t`. -/
def cell (mode t c : UInt8) : CharCall := ⟨x + (size / 2).toUInt16 * t.toUInt16, y, c, size, mode⟩

/-- The loop of `LCD_ShowNum` and `LCD_ShowxNum` from place `t` on, with `n` passes left.  `zero` is
what is drawn for a leading zero. -/
def showDigits (zero mode : UInt8) : ℕ → UInt8 → Bool → List CharCall
  | 0, _, _ => []
  | n + 1, t, enshow =>
    let temp := digitAt num len t
    if enshow = false ∧ t < len - 1 then
      if temp = 0 then cell x y size mode t zero :: showDigits zero mode n (t + 1) enshow
      else cell x y size mode t (temp + 0x30) :: showDigits zero mode n (t + 1) true
    else cell x y size mode t (temp + 0x30) :: showDigits zero mode n (t + 1) enshow

def lcdShowNum : List CharCall := showDigits x y num len size 0x20 0 len.toNat 0 false

def lcdShowxNum (mode : UInt8) : List CharCall :=
  showDigits x y num len size (if mode &&& 0x80 ≠ 0 then 0x30 else 0x20) (mode &&& 0x01) len.toNat 0 false

end

/-! ## Powers of ten -/

theorem powLoop_toNat (m : UInt8) : ∀ (n : ℕ) (result : UInt32),
    (powLoop m n result).toNat = result.toNat * m.toNat ^ n % 2 ^ 32
  | 0, result => by rw [powLoop, Nat.pow_zero, Nat.mul_one, Nat.mod_eq_of_lt result.toNat_lt]
  | n + 1, result => by
    rw [powLoop, powLoop_toNat m n, UInt32.toNat_mul, UInt8.toNat_toUInt32, Nat.mod_mul_mod, Nat.mul_assoc,
      ← Nat.pow_succ']

/-- **The powers of ten fit**, up to ten digits. -/
theorem lcdPow_ten {n : UInt8} (hn : n.toNat ≤ 9) : (lcdPow 10 n).toNat = 10 ^ n.toNat := by
  have hle : 10 ^ n.toNat ≤ 10 ^ 9 := Nat.pow_le_pow_right (by omega) hn
  have hlt : 10 ^ n.toNat < 2 ^ 32 := by omega
  have hpow := powLoop_toNat 10 n.toNat 1
  rwa [UInt32.toNat_one, Nat.one_mul, UInt8.toNat_ofNat, Nat.mod_eq_of_lt hlt] at hpow

/-! ## Digits -/

section
variable {x y : UInt16} {num : UInt32} {len size : UInt8}

/-- Behind place `t` there are `n` more. -/
theorem places_behind {n : ℕ} {t : UInt8} (ht : t.toNat + (n + 1) = len.toNat) : (len - t - 1).toNat = n := by
  have hle : t ≤ len := by rw [UInt8.le_iff_toNat_le]; omega
  have hsub : (len - t).toNat = n + 1 := by rw [UInt8.toNat_sub_of_le _ _ hle]; omega
  have hpos : 1 ≤ len - t := by rw [UInt8.le_iff_toNat_le, hsub, UInt8.toNat_one]; omega
  rw [UInt8.toNat_sub_of_le _ _ hpos, hsub, UInt8.toNat_one, Nat.add_sub_cancel]

/-- The power for place `t`, and every product on the way to it. -/
theorem lcdPow_used (hlen : len.toNat ≤ 10) {t n : UInt8} (ht : t < len) (hn : n ≤ len - t - 1) :
    (lcdPow 10 n).toNat = 10 ^ n.toNat := by
  obtain ⟨k, hk⟩ := Nat.exists_eq_add_of_lt (UInt8.lt_iff_toNat_lt.1 ht)
  have hle : n.toNat ≤ k := by rw [← places_behind hk.symm]; exact UInt8.le_iff_toNat_le.1 hn
  exact lcdPow_ten (by omega)

theorem lt_last_iff {n : ℕ} {t : UInt8} (ht : t.toNat + (n + 1) = len.toNat) : t < len - 1 ↔ 0 < n := by
  have hpos : 1 ≤ len := by rw [UInt8.le_iff_toNat_le, UInt8.toNat_one]; omega
  rw [UInt8.lt_iff_toNat_lt, UInt8.toNat_sub_of_le _ _ hpos, UInt8.toNat_one]
  omega

theorem succ_place {n : ℕ} {t : UInt8} (ht : t.toNat + (n + 1) = len.toNat) : (t + 1).toNat = t.toNat + 1 := by
  have hlen := len.toNat_lt
  rw [UInt8.toNat_add, UInt8.toNat_one, Nat.mod_eq_of_lt (by omega)]

variable (hlen : len.toNat ≤ 10)
include hlen

theorem digitAt_toNat {n : ℕ} {t : UInt8} (ht : t.toNat + (n + 1) = len.toNat) :
    (digitAt num len t).toNat = num.toNat / 10 ^ n % 10 := by
  have hbehind := places_behind ht
  have hpow : (lcdPow 10 (len - t - 1)).toNat = 10 ^ n := by rw [lcdPow_ten (by omega), hbehind]
  have hdigit : num.toNat / 10 ^ n % 10 < 256 := Nat.lt_of_lt_of_le (Nat.mod_lt _ (by omega)) (by omega)
  rw [digitAt, UInt32.toNat_toUInt8, UInt32.toNat_mod, UInt32.toNat_div, hpow]
  exact Nat.mod_eq_of_lt hdigit

theorem digitAt_eq_zero_iff {n : ℕ} {t : UInt8} (ht : t.toNat + (n + 1) = len.toNat) :
    digitAt num len t = 0 ↔ num.toNat / 10 ^ n % 10 = 0 := by
  rw [← UInt8.toNat_inj, digitAt_toNat hlen ht, UInt8.toNat_zero]

theorem digitAt_byte {n : ℕ} {t : UInt8} (ht : t.toNat + (n + 1) = len.toNat) :
    digitAt num len t + 0x30 = lastDigit (num.toNat / 10 ^ n) := by
  have hdigit : num.toNat / 10 ^ n % 10 < 10 := Nat.mod_lt _ (by omega)
  have hzero : (0x30 : UInt8).toNat = 48 := rfl
  rw [← UInt8.toNat_inj, UInt8.toNat_add, digitAt_toNat hlen ht, lastDigit_toNat, hzero, Nat.add_comm 48]
  exact Nat.mod_eq_of_lt (by omega)

end

/-! ## What is drawn -/

section
variable (x y : UInt16) (size mode : UInt8)

/-- The characters `p` in one row, the first in place `n`. -/
def rowFrom (n : ℕ) (p : List UInt8) : List CharCall :=
  p.mapIdx fun k c => ⟨UInt16.ofNat (x.toNat + size.toNat / 2 * (n + k)), y, c, size, mode⟩

theorem map_num_rowFrom (n : ℕ) (p : List UInt8) : (rowFrom x y size mode n p).map CharCall.num = p := by
  apply List.ext_getElem?
  intro k
  simp [rowFrom, Function.comp_def]

theorem length_rowFrom (n : ℕ) (p : List UInt8) : (rowFrom x y size mode n p).length = p.length :=
  List.length_mapIdx

theorem cell_eq (t c : UInt8) :
    cell x y size mode t c = ⟨UInt16.ofNat (x.toNat + size.toNat / 2 * t.toNat), y, c, size, mode⟩ := by
  have hx : x + (size / 2).toUInt16 * t.toUInt16 = UInt16.ofNat (x.toNat + size.toNat / 2 * t.toNat) := by
    rw [← UInt16.toNat_inj]
    simp
  rw [cell, hx]

theorem cell_cons_rowFrom (t c : UInt8) (p : List UInt8) :
    cell x y size mode t c :: rowFrom x y size mode (t.toNat + 1) p = rowFrom x y size mode t.toNat (c :: p) := by
  simp [rowFrom, cell_eq, List.mapIdx_cons, Nat.add_assoc, Nat.add_comm 1]

end

section
variable {x y : UInt16} {num : UInt32} {len size zero mode : UInt8} (hlen : len.toNat ≤ 10)
include hlen

/-- After the first digit that is not 0 every digit is drawn. -/
theorem showDigits_on : ∀ {n : ℕ} {t : UInt8}, t.toNat + n = len.toNat →
    showDigits x y num len size zero mode n t true = rowFrom x y size mode t.toNat (places num.toNat n)
  | 0, _, _ => rfl
  | n + 1, t, ht => by
    have hnext : (t + 1).toNat + n = len.toNat := by rw [succ_place ht]; omega
    rw [showDigits, if_neg (by simp), showDigits_on hnext, succ_place ht, cell_cons_rowFrom, digitAt_byte hlen ht,
      places_succ]

/-- **From any place on, while only zeros were seen**: the rest of the number, aligned. -/
theorem showDigits_off : ∀ {n : ℕ} {t : UInt8}, t.toNat + (n + 1) = len.toNat →
    showDigits x y num len size zero mode (n + 1) t false =
      rowFrom x y size mode t.toNat (aligned zero (n + 1) (num.toNat % 10 ^ (n + 1)))
  | 0, t, ht => by
    have hlast : ¬ (false = false ∧ t < len - 1) := by rw [lt_last_iff ht]; omega
    rw [showDigits, if_neg hlast, showDigits, aligned_one, digitAt_byte hlen ht, Nat.pow_zero, Nat.div_one]
    exact cell_cons_rowFrom x y size mode t _ []
  | n + 1, t, ht => by
    have hnext : (t + 1).toNat + (n + 1) = len.toNat := by rw [succ_place ht]; omega
    have hinner : false = false ∧ t < len - 1 := ⟨rfl, (lt_last_iff ht).2 (Nat.succ_pos n)⟩
    rw [showDigits, if_pos hinner]
    by_cases hzero : num.toNat / 10 ^ (n + 1) % 10 = 0
    · rw [if_pos ((digitAt_eq_zero_iff hlen ht).2 hzero), showDigits_off hnext, succ_place ht, cell_cons_rowFrom,
        aligned_zero zero (Nat.succ_pos n) hzero]
    · rw [if_neg (mt (digitAt_eq_zero_iff hlen ht).1 hzero), showDigits_on hlen hnext, succ_place ht,
        cell_cons_rowFrom, digitAt_byte hlen ht, aligned_digit zero hzero]

end

section
variable {x y : UInt16} {num : UInt32} {len size mode : UInt8} (hpos : 1 ≤ len.toNat) (hlen : len.toNat ≤ 10)
include hpos hlen

/-- **The whole loop** draws the number, aligned. -/
theorem showDigits_eq (zero : UInt8) : showDigits x y num len size zero mode len.toNat 0 false =
    rowFrom x y size mode 0 (aligned zero len.toNat (num.toNat % 10 ^ len.toNat)) := by
  obtain ⟨n, hn⟩ := Nat.exists_eq_add_one.2 hpos
  have hstart : (0 : UInt8).toNat + (n + 1) = len.toNat := by rw [hn]; exact Nat.zero_add _
  rw [hn]
  exact showDigits_off hlen hstart

theorem length_showDigits (zero : UInt8) :
    (showDigits x y num len size zero mode len.toNat 0 false).length = len.toNat := by
  have hmod : num.toNat % 10 ^ len.toNat < 10 ^ len.toNat := Nat.mod_lt _ (Nat.pow_pos (by omega))
  rw [showDigits_eq hpos hlen, length_rowFrom, length_aligned _ hpos hmod]

/-- The number is read back, whether zeros or spaces are drawn for the leading zeros. -/
theorem showDigits_read {zero : UInt8} (hzero : zero.toNat ≤ 48) :
    numeral ((showDigits x y num len size zero mode len.toNat 0 false).map CharCall.num) =
      num.toNat % 10 ^ len.toNat := by
  rw [showDigits_eq hpos hlen, map_num_rowFrom, numeral_aligned hzero]

theorem lcdShowNum_eq : lcdShowNum x y num len size =
    rowFrom x y size 0 0 (aligned 0x20 len.toNat (num.toNat % 10 ^ len.toNat)) :=
  showDigits_eq hpos hlen 0x20

theorem lcdShowxNum_eq : lcdShowxNum x y num len size mode =
    rowFrom x y size (mode &&& 0x01) 0
      (aligned (if mode &&& 0x80 ≠ 0 then 0x30 else 0x20) len.toNat (num.toNat % 10 ^ len.toNat)) :=
  showDigits_eq hpos hlen _

/-- The last digit is drawn, also where it is 0. -/
theorem getLast?_lcdShowNum :
    (lcdShowNum x y num len size).getLast?.map CharCall.num = some (lastDigit num.toNat) := by
  have hdvd : 10 ∣ 10 ^ len.toNat := dvd_pow_self 10 (by omega)
  rw [lcdShowNum_eq hpos hlen, ← List.getLast?_map, map_num_rowFrom, getLast?_aligned, lastDigit,
    Nat.mod_mod_of_dvd _ hdvd, lastDigit]

/-- With bit 7 of the mode all digits are drawn. -/
theorem map_num_lcdShowxNum (hmode : mode &&& 0x80 ≠ 0) :
    (lcdShowxNum x y num len size mode).map CharCall.num = places num.toNat len.toNat := by
  obtain ⟨n, hn⟩ := Nat.exists_eq_add_one.2 hpos
  rw [lcdShowxNum_eq hpos hlen, if_pos hmode, map_num_rowFrom, hn]
  exact aligned_zeros num.toNat n

/-- **The number is read back** from what `LCD_ShowNum` draws. -/
theorem lcdShowNum_read :
    numeral ((lcdShowNum x y num len size).map CharCall.num) = num.toNat % 10 ^ len.toNat :=
  showDigits_read hpos hlen (by decide)

theorem lcdShowxNum_read :
    numeral ((lcdShowxNum x y num len size mode).map CharCall.num) = num.toNat % 10 ^ len.toNat :=
  showDigits_read hpos hlen (by split <;> decide)

end

/-- **Numbers on the display**, right-aligned in `len` places, with spaces or with zeros to their left. -/
theorem showNum_exact (x y : UInt16) (num : UInt32) {len : UInt8} (hlen : 1 ≤ len ∧ len ≤ 10) (size : UInt8) :
    (lcdShowNum x y num len size =
        rowFrom x y size 0 0 (aligned 0x20 len.toNat (num.toNat % 10 ^ len.toNat)) ∧
      (lcdShowNum x y num len size).length = len.toNat ∧
      (lcdShowNum x y num len size).getLast?.map CharCall.num = some (lastDigit num.toNat)) ∧
    (∀ mode, mode &&& 0x80 ≠ 0 →
      lcdShowxNum x y num len size mode =
          rowFrom x y size (mode &&& 0x01) 0 (aligned 0x30 len.toNat (num.toNat % 10 ^ len.toNat)) ∧
        (lcdShowxNum x y num len size mode).length = len.toNat ∧
        (lcdShowxNum x y num len size mode).map CharCall.num = places num.toNat len.toNat) ∧
    ∀ t < len, ∀ n ≤ len - t - 1, (lcdPow 10 n).toNat = 10 ^ n.toNat := by
  have hpos : 1 ≤ len.toNat := UInt8.le_iff_toNat_le.1 hlen.1
  have hle : len.toNat ≤ 10 := UInt8.le_iff_toNat_le.1 hlen.2
  refine ⟨⟨lcdShowNum_eq hpos hle, length_showDigits hpos hle _, getLast?_lcdShowNum hpos hle⟩, ?_, ?_⟩
  · intro mode hmode
    have hxnum := @lcdShowxNum_eq x y num len size mode hpos hle
    rw [if_pos hmode] at hxnum
    exact ⟨hxnum, length_showDigits hpos hle _, map_num_lcdShowxNum hpos hle hmode⟩
  · intro t ht n hn
    exact lcdPow_used hle ht hn

/-- 1203 in six places: the inner zero is drawn. -/
theorem showNum_exact_inner_zero :
    (lcdShowNum 64 160 1203 6 16).map CharCall.num = [0x20, 0x20, 0x31, 0x32, 0x30, 0x33] ∧
    (lcdShowxNum 64 160 1203 6 16 0x80).map CharCall.num = [0x30, 0x30, 0x31, 0x32, 0x30, 0x33] := by
  obtain ⟨⟨hnum, -, -⟩, hshow, -⟩ := @showNum_exact 64 160 1203 6 ⟨by decide, by decide⟩ 16
  obtain ⟨-, -, hxnum⟩ := hshow 0x80 (by decide)
  rw [hnum, hxnum, map_num_rowFrom]
  exact ⟨rfl, rfl⟩

end DataRecorder.Lcd
