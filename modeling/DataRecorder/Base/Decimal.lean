/-
  Decimal numerals as ASCII bytes: the conversions `%d` and `%02d` of `sprintf`
  on non-negative numbers.

  `numeral` reads a numeral back.  Both conversions write digits only, so a
  numeral followed by a byte that is not a digit is recovered from the text
  (`split_unique`).

  `aligned` puts a number at the right of a fixed number of places.  Its digits
  come one by one from the left: a leading zero (`aligned_zero`), the first digit
  that is not 0 with all behind it (`aligned_digit`), and the last one
  (`aligned_one`).
-/
import Mathlib.Data.List.Basic
import Mathlib.Tactic.Common
import Mathlib.Tactic.IntervalCases
import Mathlib.Tactic.Ring

namespace Base

def ascii (s : String) : List UInt8 := s.toList.map fun c => UInt8.ofNat c.toNat

/-- `%d` on a non-negative number. -/
def decimal (n : ℕ) : List UInt8 := (Nat.toDigits 10 n).map fun c => UInt8.ofNat c.toNat

/-- `%02d` on a non-negative number. -/
def decimal02 (n : ℕ) : List UInt8 := if n < 10 then 48 :: decimal n else decimal n

def IsDigit (b : UInt8) : Prop := 48 ≤ b.toNat ∧ b.toNat ≤ 57

def numeral (l : List UInt8) : ℕ := l.foldl (fun n b => 10 * n + (b.toNat - 48)) 0

def lastDigit (n : ℕ) : UInt8 := UInt8.ofNat (Nat.digitChar (n % 10)).toNat

theorem lastDigit_toNat (n : ℕ) : (lastDigit n).toNat = 48 + n % 10 := by
  have hdigit : n % 10 < 10 := Nat.mod_lt n (by omega)
  rw [lastDigit]
  interval_cases n % 10 <;> rfl

theorem lastDigit_isDigit (n : ℕ) : IsDigit (lastDigit n) := by
  rw [IsDigit, lastDigit_toNat]
  omega

theorem decimal_small {n : ℕ} (h : n < 10) : decimal n = [lastDigit n] := by
  rw [decimal, Nat.toDigits_of_lt_base h, lastDigit, Nat.mod_eq_of_lt h]; rfl

theorem decimal_large {n : ℕ} (h : 10 ≤ n) : decimal n = decimal (n / 10) ++ [lastDigit n] := by
  rw [decimal, Nat.toDigits_of_base_le (by omega) h, List.map_append]; rfl

/-- Induction on a number by dropping its last decimal digit. -/
theorem digit_induction {P : ℕ → Prop} (small : ∀ n < 10, P n) (large : ∀ n, 10 ≤ n → P (n / 10) → P n)
    (n : ℕ) : P n := by
  induction n using Nat.strong_induction_on with
  | _ n ih =>
    rcases Nat.lt_or_ge n 10 with h | h
    · exact small n h
    · exact large n h (ih _ (by omega))

theorem decimal_ne_nil (n : ℕ) : decimal n ≠ [] := by
  simp [decimal, Nat.toDigits_ne_nil]

theorem decimal_isDigit (n : ℕ) : ∀ b ∈ decimal n, IsDigit b := by
  induction n using digit_induction with
  | small n h =>
    rw [decimal_small h]
    intro b hb
    rw [List.mem_singleton.1 hb]
    exact lastDigit_isDigit n
  | large n h ih =>
    rw [decimal_large h]
    intro b hb
    rcases List.mem_append.1 hb with hb | hb
    · exact ih b hb
    · rw [List.mem_singleton.1 hb]
      exact lastDigit_isDigit n

theorem decimal02_isDigit (n : ℕ) : ∀ b ∈ decimal02 n, IsDigit b := by
  unfold decimal02; split
  · intro b hb
    rcases List.mem_cons.1 hb with rfl | hb
    · exact ⟨le_rfl, by decide⟩
    · exact decimal_isDigit n b hb
  · exact decimal_isDigit n

theorem numeral_snoc (l : List UInt8) (b : UInt8) : numeral (l ++ [b]) = 10 * numeral l + (b.toNat - 48) := by
  simp [numeral]

/-- **`%d` is read back.** -/
theorem numeral_decimal (n : ℕ) : numeral (decimal n) = n := by
  induction n using digit_induction with
  | small n h =>
    have hnil : numeral [] = 0 := rfl
    rw [decimal_small h, ← List.nil_append [_], numeral_snoc, hnil, lastDigit_toNat]; omega
  | large n h ih =>
    rw [decimal_large h, numeral_snoc, ih, lastDigit_toNat]; omega

/-- **`%02d` is read back.** -/
theorem numeral_decimal02 (n : ℕ) : numeral (decimal02 n) = n := by
  unfold decimal02; split
  · exact numeral_decimal n
  · exact numeral_decimal n

theorem decimal02_injective : Function.Injective decimal02 := fun n m h => by
  rw [← numeral_decimal02 n, h, numeral_decimal02]

/-- A text is cut at its first separator in one way only. -/
theorem split_unique {α : Type*} {s : α} :
    ∀ {a b x y : List α}, s ∉ a → s ∉ b → a ++ s :: x = b ++ s :: y → a = b ∧ x = y
  | [], [], _, _, _, _, h => ⟨rfl, (List.cons.inj h).2⟩
  | [], c :: b, _, _, _, hb, h => absurd (List.cons.inj h).1 fun e => hb (e ▸ List.mem_cons_self ..)
  | c :: a, [], _, _, ha, _, h => absurd (List.cons.inj h).1 fun e => ha (e ▸ List.mem_cons_self ..)
  | c :: a, d :: b, _, _, ha, hb, h => by
    obtain ⟨hc, h⟩ := List.cons.inj (show c :: (a ++ s :: _) = d :: (b ++ s :: _) from h)
    obtain ⟨hab, hxy⟩ := split_unique (fun m => ha (List.mem_cons_of_mem _ m))
      (fun m => hb (List.mem_cons_of_mem _ m)) h
    exact ⟨by rw [hc, hab], hxy⟩

theorem not_mem_of_isDigit {s : UInt8} (hs : ¬ IsDigit s) {l : List UInt8} (h : ∀ b ∈ l, IsDigit b) :
    s ∉ l := fun m => hs (h s m)

/-! ## A fixed number of places -/

/-- The last `w` digits, leading zeros included. -/
def places (n : ℕ) : ℕ → List UInt8
  | 0 => []
  | w + 1 => lastDigit (n / 10 ^ w) :: places n w

/-- A number at the right of `w` places, with `b` in those to its left. -/
def aligned (b : UInt8) (w n : ℕ) : List UInt8 := (decimal n).leftpad w b

theorem places_succ (n w : ℕ) : places n (w + 1) = lastDigit (n / 10 ^ w) :: places n w := rfl

theorem length_places (n : ℕ) : ∀ w, (places n w).length = w
  | 0 => rfl
  | w + 1 => by rw [places_succ, List.length_cons, length_places n w]

theorem places_snoc (n : ℕ) : ∀ w, places n (w + 1) = places (n / 10) w ++ [lastDigit n]
  | 0 => by simp [places]
  | w + 1 => by
    have hdiv : n / 10 / 10 ^ w = n / 10 ^ (w + 1) := by rw [Nat.div_div_eq_div_mul, Nat.pow_succ']
    rw [places_succ, places_snoc n w, places_succ, hdiv, List.cons_append]

theorem places_mod (n : ℕ) {v : ℕ} : ∀ {w}, w ≤ v → places (n % 10 ^ v) w = places n w
  | 0, _ => rfl
  | w + 1, h => by
    have hpow : 10 ^ v = 10 ^ w * 10 ^ (v - w) := by rw [← Nat.pow_add, Nat.add_sub_cancel' (by omega)]
    have hdvd : 10 ∣ 10 ^ (v - w) := dvd_pow_self 10 (by omega)
    have hdigit : n % 10 ^ v / 10 ^ w % 10 = n / 10 ^ w % 10 := by
      rw [hpow, Nat.mod_mul_right_div_self, Nat.mod_mod_of_dvd _ hdvd]
    rw [places_succ, places_succ, places_mod n (by omega), lastDigit, hdigit, lastDigit]

/-- A number without leading zeros is its digits. -/
theorem decimal_places {w : ℕ} : ∀ {n : ℕ}, 10 ^ w ≤ n → n < 10 ^ (w + 1) → decimal n = places n (w + 1) := by
  induction w with
  | zero =>
    intro n _ hlt
    rw [Nat.zero_add, Nat.pow_one] at hlt
    rw [decimal_small hlt, places_snoc]
    rfl
  | succ w ih =>
    intro n hle hlt
    rw [Nat.pow_succ] at hle hlt
    have hpos : 0 < 10 ^ w := Nat.pow_pos (by omega)
    rw [decimal_large (by omega), ih (by omega) (by omega), places_snoc n (w + 1)]

theorem length_decimal_le {n w : ℕ} (hw : 0 < w) (h : n < 10 ^ w) : (decimal n).length ≤ w := by
  rw [decimal, List.length_map]
  exact (Nat.length_toDigits_le_iff (by omega) hw).2 h

theorem length_aligned (b : UInt8) {n w : ℕ} (hw : 0 < w) (h : n < 10 ^ w) : (aligned b w n).length = w := by
  rw [aligned, List.length_leftpad, Nat.max_eq_left (length_decimal_le hw h)]

theorem aligned_one (b : UInt8) (n : ℕ) : aligned b 1 (n % 10 ^ 1) = [lastDigit n] := by
  rw [Nat.pow_one, aligned, decimal_small (Nat.mod_lt n (by omega)), lastDigit, Nat.mod_mod]
  rfl

theorem getLast?_decimal (n : ℕ) : (decimal n).getLast? = some (lastDigit n) := by
  rcases Nat.lt_or_ge n 10 with h | h
  · rw [decimal_small h]
    rfl
  · rw [decimal_large h, List.getLast?_concat]

theorem getLast?_aligned (b : UInt8) (w n : ℕ) : (aligned b w n).getLast? = some (lastDigit n) := by
  rw [aligned, List.leftpad, List.getLast?_append_of_ne_nil _ (decimal_ne_nil n), getLast?_decimal]

/-- A leading zero. -/
theorem aligned_zero (b : UInt8) {n w : ℕ} (hw : 0 < w) (h : n / 10 ^ w % 10 = 0) :
    aligned b (w + 1) (n % 10 ^ (w + 1)) = b :: aligned b w (n % 10 ^ w) := by
  have hmod : n % 10 ^ (w + 1) = n % 10 ^ w := by rw [Nat.mod_pow_succ, h, Nat.mul_zero, Nat.add_zero]
  have hlen := length_decimal_le hw (Nat.mod_lt n (Nat.pow_pos (by omega : 0 < 10)))
  rw [hmod, aligned, aligned, List.leftpad, List.leftpad, Nat.succ_sub hlen, List.replicate_succ, List.cons_append]

/-- The first digit that is not 0, and all behind it. -/
theorem aligned_digit (b : UInt8) {n w : ℕ} (h : n / 10 ^ w % 10 ≠ 0) :
    aligned b (w + 1) (n % 10 ^ (w + 1)) = lastDigit (n / 10 ^ w) :: places n w := by
  have hle : 10 ^ w ≤ n % 10 ^ (w + 1) := by
    rw [Nat.mod_pow_succ]
    have := Nat.le_mul_of_pos_right (10 ^ w) (Nat.pos_of_ne_zero h)
    omega
  have hlt : n % 10 ^ (w + 1) < 10 ^ (w + 1) := Nat.mod_lt n (Nat.pow_pos (by omega))
  have hdec : decimal (n % 10 ^ (w + 1)) = places n (w + 1) := by
    rw [decimal_places hle hlt, places_mod n le_rfl]
  rw [aligned, hdec, List.leftpad, length_places, Nat.sub_self, places_succ]
  rfl

/-- With zeros to its left a number is its digits in all places. -/
theorem aligned_zeros (n : ℕ) : ∀ w, aligned 48 (w + 1) (n % 10 ^ (w + 1)) = places n (w + 1)
  | 0 => by rw [aligned_one, places_succ, Nat.pow_zero, Nat.div_one, places]
  | w + 1 => by
    by_cases hdigit : n / 10 ^ (w + 1) % 10 = 0
    · have hbyte : lastDigit (n / 10 ^ (w + 1)) = 48 := by rw [lastDigit, hdigit]; rfl
      rw [aligned_zero 48 (Nat.succ_pos w) hdigit, aligned_zeros n w, places_succ n (w + 1), hbyte]
    · rw [aligned_digit 48 hdigit, places_succ n (w + 1)]

theorem numeral_replicate {b : UInt8} (hb : b.toNat ≤ 48) (l : List UInt8) :
    ∀ k, numeral (List.replicate k b ++ l) = numeral l
  | 0 => rfl
  | k + 1 => by
    have hskip : numeral (b :: (List.replicate k b ++ l)) = numeral (List.replicate k b ++ l) := by
      rw [numeral, List.foldl_cons, Nat.sub_eq_zero_of_le hb]
      rfl
    rw [List.replicate_succ, List.cons_append, hskip, numeral_replicate hb l k]

/-- **An aligned number is read back**, whether zeros or spaces are to its left. -/
theorem numeral_aligned {b : UInt8} (hb : b.toNat ≤ 48) (w n : ℕ) : numeral (aligned b w n) = n := by
  rw [aligned, List.leftpad, numeral_replicate hb, numeral_decimal]

end Base
