/-
  The strings of a command (`USMART/usmart_str.c`): numbers and single parameters.

  A string is the list of its bytes before the NUL.  `usmart_get_aparm` goes on behind
  the NUL when a quoted string is not closed; this is the result `none`.  Its return
  value, the offset of the next parameter, is given as the rest of the string.

  * `usmartStr2num_eq`: what a number with a sign and a base is converted to;
  * `aparm_num`, `aparm_str`: what is read of one parameter, and where.
-/
import Mathlib.Data.List.TakeWhile
import Mathlib.Tactic.IntervalCases
import DataRecorder.Base.Decimal
import DataRecorder.Base.Memory

namespace DataRecorder.Usmart

open Base

abbrev SPACE : UInt8 := 0x20
abbrev QUOTE : UInt8 := 0x22
abbrev LPAR : UInt8 := 0x28
abbrev RPAR : UInt8 := 0x29
abbrev STAR : UInt8 := 0x2a
abbrev PLUS : UInt8 := 0x2b
abbrev COMMA : UInt8 := 0x2c
abbrev MINUS : UInt8 := 0x2d
abbrev BACKSLASH : UInt8 := 0x5c

/-- A test of every byte of a list. -/
theorem forall_mem_of_all {P : UInt8 → Prop} [DecidablePred P] {l : List UInt8}
    (h : l.all (fun c => decide (P c)) = true) : ∀ c ∈ l, P c :=
  fun c hc => of_decide_eq_true (List.all_eq_true.1 h c hc)

/-- A list up to where `P` fails. -/
theorem exists_span (P : UInt8 → Prop) [DecidablePred P] (l : List UInt8) :
    ∃ p t, (∀ c ∈ p, P c) ∧ (∀ c ∈ t.head?, ¬ P c) ∧ l = p ++ t ∧ l.takeWhile P = p ∧ l.dropWhile P = t := by
  refine ⟨_, _, fun c hc => ?_, fun c hc => ?_, List.takeWhile_append_dropWhile.symm, rfl, rfl⟩
  · simpa using List.mem_takeWhile_imp hc
  · have hnot := List.head?_dropWhile_not (fun c => decide (P c)) l
    rw [Option.mem_def.1 hc] at hnot
    simpa using hnot

/-! ## Numbers -/

/-- `usmart_pow`, modulo 2^32. -/
def usmartPow (m : UInt32) : ℕ → UInt32
  | 0 => 1
  | n + 1 => usmartPow m n * m

/-- `flag` of `usmart_str2num`. -/
inductive Sign where
  | none
  | plus
  | minus
  deriving DecidableEq

/-- The variables of the first loop of `usmart_str2num`, which checks the bytes. -/
structure Numeral where
  str : List UInt8
  bnum : ℕ
  hexdec : UInt32
  flag : Sign

/-- The byte `c` at `p` is legal. -/
def Numeral.Legal (s : Numeral) (c : UInt8) : Prop :=
  (0x30 ≤ c ∧ c ≤ 0x39) ∨ ((s.str.head? = some MINUS ∨ s.str.head? = some PLUS) ∧ s.bnum = 0) ∨
    (0x41 ≤ c ∧ c ≤ 0x46) ∨ (c = 0x58 ∧ s.bnum = 1)

instance (s : Numeral) (c : UInt8) : Decidable (s.Legal c) := inferInstanceAs (Decidable (_ ∨ _))

def Numeral.check (s : Numeral) (c : UInt8) : Option Numeral :=
  if s.Legal c then
    let s := if 0x41 ≤ c then { s with hexdec := 16 } else s
    if s.str.head? = some MINUS then some { s with flag := .minus, str := s.str.tail }
    else if s.str.head? = some PLUS then some { s with flag := .plus, str := s.str.tail }
    else some { s with bnum := s.bnum + 1 }
  else none

def digitValue (c : UInt8) : UInt32 :=
  if 0x30 ≤ c ∧ c ≤ 0x39 then c.toUInt32 - 0x30 else c.toUInt32 - 0x41 + 10

/-- The last loop of `usmart_str2num`. -/
def sumDigits (hexdec : UInt32) : ℕ → List UInt8 → UInt32 → UInt32
  | _, [], res => res
  | bnum, c :: p, res => sumDigits hexdec (bnum - 1) p (res + digitValue c * usmartPow hexdec (bnum - 1))

/-- `usmart_str2num`, with its error codes. -/
def usmartStr2num (str : List UInt8) : Except ℕ UInt32 :=
  match str.foldlM Numeral.check ⟨str, 0, 10, .none⟩ with
  | none => .error 1
  | some s =>
    let signed (res : UInt32) : UInt32 := if s.flag = .minus then -res else res
    if s.hexdec = 16 then
      if s.bnum < 3 then .error 2
      else match s.str with
        | 0x30 :: 0x58 :: p => .ok (signed (sumDigits 16 (s.bnum - 2) p 0))
        | _ => .error 3
    else if s.bnum = 0 then .error 4
    else .ok (signed (sumDigits 10 s.bnum s.str 0))

/-! ## One parameter -/

/-- `*ptype`. -/
inductive PType where
  | num
  | str
  | err
  deriving DecidableEq

/-- What `usmart_get_aparm` gives: `fparm`, `*ptype`, and the string from the returned offset on. -/
structure Aparm where
  fparm : List UInt8
  ptype : PType
  rest : List UInt8
  deriving DecidableEq

/-- A byte of a number. -/
def InNumber (c : UInt8) : Prop :=
  (0x30 ≤ c ∧ c ≤ 0x39) ∨ c = MINUS ∨ c = PLUS ∨ (0x61 ≤ c ∧ c ≤ 0x66) ∨ (0x41 ≤ c ∧ c ≤ 0x46) ∨
    c = 0x58 ∨ c = 0x78

instance (c : UInt8) : Decidable (InNumber c) := inferInstanceAs (Decidable (_ ∨ _))

def upper (c : UInt8) : UInt8 := if 0x61 ≤ c then c - 0x20 else c

/-- The loop of `usmart_get_aparm`, for the type `str`: `string` tells whether the closing quote is
still to come. -/
def strLoop (string : Bool) (fparm : List UInt8) : List UInt8 → Option Aparm
  | [] => if string then none else some ⟨fparm, .str, []⟩
  | c :: str =>
    if string then
      if c = QUOTE then strLoop false fparm str
      else if c = BACKSLASH then
        match str with
        | [] => none
        | d :: str => strLoop true (fparm ++ [d]) str
      else strLoop true (fparm ++ [c]) str
    else if c = COMMA ∨ c = RPAR then some ⟨fparm, .str, c :: str⟩
    else strLoop false fparm str

/-- The loop of `usmart_get_aparm`, for the type `num`. -/
def numLoop (enout : Bool) (fparm : List UInt8) : List UInt8 → Option Aparm
  | [] => some ⟨fparm, .num, []⟩
  | c :: str =>
    if c = RPAR then some ⟨fparm, .num, c :: str⟩
    else if c = COMMA then numLoop true fparm str
    else if InNumber c then
      if enout then some ⟨fparm, .num, c :: str⟩ else numLoop enout (fparm ++ [upper c]) str
    else if c = QUOTE then
      if enout then some ⟨fparm, .num, c :: str⟩ else strLoop true fparm str
    else if c ≠ SPACE then some ⟨fparm, .err, c :: str⟩
    else numLoop enout fparm str

def usmartGetAparm (str : List UInt8) : Option Aparm := numLoop false [] str

/-! ## Numbers as they are typed -/

inductive Radix where
  | dec
  | hex
  deriving DecidableEq

namespace Radix

def base : Radix → ℕ
  | dec => 10
  | hex => 16

def IsDigit (r : Radix) (c : UInt8) : Prop := (0x30 ≤ c ∧ c ≤ 0x39) ∨ (r = hex ∧ 0x41 ≤ c ∧ c ≤ 0x46)

instance (r : Radix) (c : UInt8) : Decidable (r.IsDigit c) := inferInstanceAs (Decidable (_ ∨ _))

def text : Radix → List UInt8
  | dec => []
  | hex => [0x30, 0x58]

end Radix

def Sign.text : Sign → List UInt8
  | none => []
  | plus => [PLUS]
  | minus => [MINUS]

def Sign.apply : Sign → ℕ → ℤ
  | minus, n => -n
  | _, n => n

/-- The digits, in the order of their values. -/
def numerals : List UInt8 := ascii "0123456789ABCDEF"

/-- A decimal number, or a hexadecimal one with `0X`, with an optional sign. -/
structure Number where
  sign : Sign
  radix : Radix
  digits : List UInt8
  digits_ne_nil : digits ≠ []
  isDigit : ∀ c ∈ digits, radix.IsDigit c

namespace Number

def text (x : Number) : List UInt8 := x.sign.text ++ x.radix.text ++ x.digits

def magnitude (x : Number) : ℕ := x.digits.foldl (fun n c => n * x.radix.base + numerals.idxOf c) 0

def value (x : Number) : ℤ := x.sign.apply x.magnitude

end Number

/-! ## The conversion -/

theorem foldl_digits (b : UInt32) : ∀ (p : List UInt8) (n : ℕ),
    UInt32.ofNat (p.foldl (fun n c => n * b.toNat + (digitValue c).toNat) n) =
      UInt32.ofNat n * usmartPow b p.length +
        UInt32.ofNat (p.foldl (fun n c => n * b.toNat + (digitValue c).toNat) 0)
  | [], n => by simp [usmartPow]
  | c :: p, n => by
    rw [List.foldl_cons, foldl_digits b p, List.foldl_cons, foldl_digits b p (0 * _ + _), List.length_cons, usmartPow]
    simp only [UInt32.ofNat_add, UInt32.ofNat_mul, UInt32.ofNat_toNat]
    grind

theorem sumDigits_eq (b : UInt32) : ∀ (p : List UInt8) (res : UInt32), sumDigits b p.length p res =
    res + UInt32.ofNat (p.foldl (fun n c => n * b.toNat + (digitValue c).toNat) 0)
  | [], res => by simp [sumDigits]
  | c :: p, res => by
    rw [List.length_cons, sumDigits, Nat.add_sub_cancel, sumDigits_eq b p, List.foldl_cons,
      foldl_digits b p (0 * _ + _)]
    simp only [UInt32.ofNat_add, UInt32.ofNat_mul, UInt32.ofNat_toNat]
    grind

/-- A digit of the code is worth its place among the numerals. -/
theorem digitValue_toNat {r : Radix} {c : UInt8} (h : r.IsDigit c) : (digitValue c).toNat = numerals.idxOf c := by
  have hc : c = UInt8.ofNat c.toNat := UInt8.ofNat_toNat.symm
  rcases h with ⟨hlo, hhi⟩ | ⟨-, hlo, hhi⟩
  · have hlo' : 48 ≤ c.toNat := UInt8.le_iff_toNat_le.1 hlo
    have hhi' : c.toNat ≤ 57 := UInt8.le_iff_toNat_le.1 hhi
    rw [hc]
    generalize c.toNat = n at hlo' hhi'
    interval_cases n <;> decide +kernel
  · have hlo' : 65 ≤ c.toNat := UInt8.le_iff_toNat_le.1 hlo
    have hhi' : c.toNat ≤ 70 := UInt8.le_iff_toNat_le.1 hhi
    rw [hc]
    generalize c.toNat = n at hlo' hhi'
    interval_cases n <;> decide +kernel

theorem Number.magnitude_eq (x : Number) :
    x.magnitude = x.digits.foldl (fun n c => n * x.radix.base + (digitValue c).toNat) 0 :=
  List.foldl_ext _ _ _ fun _ c hc => by rw [digitValue_toNat (x.isDigit c hc)]

/-- The string does not begin with a sign. -/
def Unsigned (str : List UInt8) : Prop := str.head? ≠ some MINUS ∧ str.head? ≠ some PLUS

theorem Radix.IsDigit.not_sign {r : Radix} {c : UInt8} (h : r.IsDigit c) : c ≠ MINUS ∧ c ≠ PLUS := by
  rcases h with ⟨h, -⟩ | ⟨-, h, -⟩
  · constructor <;> rintro rfl <;> revert h <;> decide
  · constructor <;> rintro rfl <;> revert h <;> decide

theorem Number.unsigned (x : Number) : Unsigned (x.radix.text ++ x.digits) := by
  rcases hr : x.radix with _ | _
  · obtain ⟨c, p, hp⟩ := List.exists_cons_of_ne_nil x.digits_ne_nil
    have hc := (x.isDigit c (hp ▸ List.mem_cons_self)).not_sign
    simp [Unsigned, Radix.text, hp, hc.1, hc.2]
  · simp [Unsigned, Radix.text, MINUS, PLUS]

theorem Numeral.check_digit {s : Numeral} {r : Radix} {c : UInt8} (hs : Unsigned s.str) (hc : r.IsDigit c)
    (hr : r = .hex → s.hexdec = 16) : s.check c = some { s with bnum := s.bnum + 1 } := by
  have hlegal : s.Legal c := by
    rcases hc with hc | ⟨-, hc⟩
    · exact .inl hc
    · exact .inr (.inr (.inl hc))
  have hhex : (if 0x41 ≤ c then { s with hexdec := 16 } else s) = s := by
    split_ifs with h
    · rcases hc with ⟨-, hc⟩ | ⟨rfl, -⟩
      · exact absurd (UInt8.le_trans h hc) (by decide)
      · rw [← hr rfl]
    · rfl
  rw [Numeral.check, if_pos hlegal]
  dsimp only
  rw [hhex, if_neg hs.1, if_neg hs.2]

theorem Numeral.check_digits {r : Radix} : ∀ {p : List UInt8} {s : Numeral}, Unsigned s.str →
    (∀ c ∈ p, r.IsDigit c) → (r = .hex → s.hexdec = 16) →
    p.foldlM Numeral.check s = some { s with bnum := s.bnum + p.length }
  | [], s, _, _, _ => rfl
  | c :: p, s, hs, hp, hr => by
    obtain ⟨hc, hp⟩ := List.forall_mem_cons.1 hp
    rw [List.foldlM_cons, Numeral.check_digit hs hc hr]
    show p.foldlM Numeral.check { s with bnum := s.bnum + 1 } = _
    rw [Numeral.check_digits (s := { s with bnum := s.bnum + 1 }) hs hp hr]
    rw [List.length_cons, Nat.add_assoc, Nat.add_comm 1]

/-- The check of a number without its sign. -/
theorem Number.check (x : Number) (flag : Sign) :
    (x.radix.text ++ x.digits).foldlM Numeral.check ⟨x.radix.text ++ x.digits, 0, 10, flag⟩ =
      some ⟨x.radix.text ++ x.digits, x.radix.text.length + x.digits.length,
        UInt32.ofNat x.radix.base, flag⟩ := by
  have hs := x.unsigned
  rw [List.foldlM_append]
  rcases hr : x.radix with _ | _
  · rw [hr] at hs
    show x.digits.foldlM Numeral.check _ = _
    rw [Numeral.check_digits hs (fun c hc => hr ▸ x.isDigit c hc) (by simp)]
    rfl
  · show x.digits.foldlM Numeral.check ⟨[0x30, 0x58] ++ x.digits, 2, 16, flag⟩ = _
    rw [hr] at hs
    rw [Numeral.check_digits hs (fun c hc => hr ▸ x.isDigit c hc) (by simp)]
    rfl

/-- The check of a number. -/
theorem Number.check_text (x : Number) :
    x.text.foldlM Numeral.check ⟨x.text, 0, 10, .none⟩ =
      some ⟨x.radix.text ++ x.digits, x.radix.text.length + x.digits.length,
        UInt32.ofNat x.radix.base, x.sign⟩ := by
  rw [Number.text, List.append_assoc]
  rcases hsign : x.sign with _ | _ | _
  · exact x.check .none
  · exact x.check .plus
  · exact x.check .minus

theorem ofInt_natCast (n : ℕ) : UInt32.ofInt n = UInt32.ofNat n := by
  have hmod : ((n : ℤ) % 4294967296).toNat = n % 4294967296 := by omega
  show UInt32.ofNat ((n : ℤ) % 4294967296).toNat = _
  rw [hmod]
  exact UInt32.ofNat_mod_size

theorem Sign.ofInt_apply (g : Sign) (n : ℕ) :
    UInt32.ofInt (g.apply n) = if g = .minus then -UInt32.ofNat n else UInt32.ofNat n := by
  rcases g with _ | _ | _
  · exact ofInt_natCast n
  · exact ofInt_natCast n
  · show UInt32.ofInt (-n) = -UInt32.ofNat n
    rw [UInt32.ofInt_neg, ofInt_natCast]

/-- What becomes of a number that was checked. -/
theorem Number.convert (x : Number) {str : List UInt8} {flag : Sign}
    (h : str.foldlM Numeral.check ⟨str, 0, 10, .none⟩ =
      some ⟨x.radix.text ++ x.digits, x.radix.text.length + x.digits.length, UInt32.ofNat x.radix.base, flag⟩) :
    usmartStr2num str = .ok (if flag = .minus then -UInt32.ofNat x.magnitude else UInt32.ofNat x.magnitude) := by
  have hpos : 0 < x.digits.length := List.length_pos_iff.2 x.digits_ne_nil
  rw [usmartStr2num, h, x.magnitude_eq]
  dsimp only
  rcases hr : x.radix with _ | _
  · have hsum : sumDigits 10 (Radix.dec.text.length + x.digits.length) (Radix.dec.text ++ x.digits) 0 = _ :=
      (congrArg (sumDigits 10 · x.digits 0) (Nat.zero_add _)).trans (sumDigits_eq 10 x.digits 0)
    have hbnum : Radix.dec.text.length + x.digits.length ≠ 0 := by
      simp only [Radix.text, List.length_nil]
      omega
    rw [if_neg (by decide), if_neg hbnum, hsum, UInt32.zero_add]
    rfl
  · have hsum : sumDigits 16 (Radix.hex.text.length + x.digits.length - 2) x.digits 0 = _ :=
      (congrArg (sumDigits 16 · x.digits 0) (Nat.add_sub_cancel_left 2 _)).trans (sumDigits_eq 16 x.digits 0)
    have hbnum : ¬ Radix.hex.text.length + x.digits.length < 3 := by
      simp only [Radix.text, List.length_cons, List.length_nil]
      omega
    rw [if_pos (by decide), if_neg hbnum]
    show Except.ok (if flag = .minus then -sumDigits 16 _ x.digits 0 else sumDigits 16 _ x.digits 0) = _
    rw [hsum, UInt32.zero_add]
    rfl

/-- **A number is converted to its value modulo 2^32.** -/
theorem Number.str2num (x : Number) : usmartStr2num x.text = .ok (UInt32.ofInt x.value) := by
  rw [x.convert x.check_text, Number.value, Sign.ofInt_apply]

/-! ## What a parameter takes of the string -/

/-- `*str` is `)` or the NUL. -/
def Ended : List UInt8 → Prop
  | [] => True
  | c :: _ => c = RPAR

instance : (str : List UInt8) → Decidable (Ended str)
  | [] => isTrue trivial
  | c :: _ => inferInstanceAs (Decidable (c = RPAR))

/-- The bytes stored and the bytes left are at most those there were; a string has its quotes too. -/
structure Aparm.Bounded (a : Aparm) (fparm str : List UInt8) (quotes : ℕ) : Prop where
  grows : fparm.length ≤ a.fparm.length
  total : a.fparm.length + a.rest.length + quotes ≤ fparm.length + str.length

theorem Aparm.Bounded.cons {a : Aparm} {fparm str : List UInt8} {quotes : ℕ} (h : a.Bounded fparm str quotes)
    (c : UInt8) : a.Bounded fparm (c :: str) (quotes + 1) :=
  ⟨h.grows, by have := h.total; rw [List.length_cons]; omega⟩

theorem Aparm.Bounded.snoc {a : Aparm} {fparm str : List UInt8} {quotes : ℕ} {d : UInt8}
    (h : a.Bounded (fparm ++ [d]) str quotes) (c : UInt8) : a.Bounded fparm (c :: str) quotes := by
  obtain ⟨hgrows, htotal⟩ := h
  rw [List.length_append, List.length_singleton] at hgrows htotal
  exact ⟨by omega, by rw [List.length_cons]; omega⟩

theorem Aparm.Bounded.mono {a : Aparm} {fparm str : List UInt8} {m n : ℕ} (h : a.Bounded fparm str n)
    (hle : m ≤ n) : a.Bounded fparm str m :=
  ⟨h.grows, Nat.le_trans (Nat.add_le_add_left hle _) h.total⟩

theorem Aparm.Bounded.rest_le {a : Aparm} {fparm str : List UInt8} {n : ℕ} (h : a.Bounded fparm str n) :
    a.rest.length ≤ str.length := by
  have hgrows := h.grows
  have htotal := h.total
  omega

theorem strLoop_bounded {string : Bool} {fparm str : List UInt8} {a : Aparm}
    (h : strLoop string fparm str = some a) : a.ptype = .str ∧ a.Bounded fparm str string.toNat := by
  fun_induction strLoop string fparm str with
  | case1 => cases h
  | case2 string fparm hstring =>
    cases h
    exact ⟨rfl, ⟨le_rfl, by simp [hstring]⟩⟩
  | case3 fparm str ih => exact ⟨(ih h).1, (ih h).2.cons _⟩
  | case4 => cases h
  | case5 fparm d str _ ih => exact ⟨(ih h).1, ((ih h).2.snoc d).cons _ |>.mono (by simp)⟩
  | case6 fparm d str _ _ ih => exact ⟨(ih h).1, (ih h).2.snoc _⟩
  | case7 string fparm c str hstring =>
    cases h
    exact ⟨rfl, ⟨le_rfl, by simp [hstring]⟩⟩
  | case8 string fparm c str hstring _ ih =>
    rw [Bool.not_eq_true] at hstring
    rw [hstring]
    exact ⟨(ih h).1, (ih h).2.cons c |>.mono (by simp)⟩

theorem numLoop_bounded {enout : Bool} {fparm str : List UInt8} {a : Aparm} (h : numLoop enout fparm str = some a) :
    a.Bounded fparm str (if a.ptype = .str then 2 else 0) := by
  fun_induction numLoop enout fparm str with
  | case1 | case2 | case4 | case6 | case8 =>
    cases h
    exact ⟨le_rfl, by simp⟩
  | case3 enout fparm str _ ih => exact (ih h).cons _ |>.mono (Nat.le_succ _)
  | case5 enout fparm c str _ _ _ _ ih => exact (ih h).snoc _
  | case7 enout fparm str _ _ _ _ =>
    obtain ⟨htype, hbounded⟩ := strLoop_bounded h
    rw [if_pos htype]
    exact hbounded.cons _
  | case9 enout fparm c str _ _ _ _ _ ih => exact (ih h).cons _ |>.mono (Nat.le_succ _)

/-- A parameter takes at least one byte. -/
theorem aparm_progress {c : UInt8} {str : List UInt8} {a : Aparm} (h : usmartGetAparm (c :: str) = some a)
    (hc : c ≠ RPAR) (ha : a.ptype ≠ .err) : a.rest.length ≤ str.length := by
  simp only [usmartGetAparm, numLoop, if_neg hc, Bool.false_eq_true, if_false] at h
  split_ifs at h with hcomma hnum hquote hspace
  · exact (numLoop_bounded h).rest_le
  · exact (numLoop_bounded h).rest_le
  · exact (strLoop_bounded h).2.rest_le
  · cases h
    exact absurd rfl ha
  · exact (numLoop_bounded h).rest_le

/-! ## Parameters as they are typed -/

/-- A byte of a string: itself, or behind a backslash. -/
inductive StrItem where
  | plain (c : UInt8) (h : c ≠ 0 ∧ c ≠ QUOTE ∧ c ≠ BACKSLASH)
  | escaped (c : UInt8) (h : c ≠ 0)

namespace StrItem

def text : StrItem → List UInt8
  | plain c _ => [c]
  | escaped c _ => [BACKSLASH, c]

def byte : StrItem → UInt8
  | plain c _ | escaped c _ => c

end StrItem

/-- A parameter as it is typed: a number, maybe with small letters, or a string in quotes. -/
inductive Typed where
  | number (x : Number) (typed : List UInt8) (h : typed.map upper = x.text)
  | string (items : List StrItem)

def Typed.text : Typed → List UInt8
  | number _ typed _ => typed
  | string items => QUOTE :: items.flatMap StrItem.text ++ [QUOTE]

def Spaces (l : List UInt8) : Prop := ∀ c ∈ l, c = SPACE

theorem spaces_nil : Spaces [] := List.forall_mem_nil _

theorem InNumber.ne {c d : UInt8} (h : InNumber c) (hd : ¬ InNumber d) : c ≠ d := by
  rintro rfl
  exact hd h

theorem inNumber_of_upper {c : UInt8} (h : InNumber (upper c)) (hc : upper c < 0x61) : InNumber c := by
  have hall : ∀ n < 256, InNumber (upper (UInt8.ofNat n)) → upper (UInt8.ofNat n) < 0x61 →
      InNumber (UInt8.ofNat n) := by decide +kernel
  have hn := hall c.toNat c.toNat_lt
  rw [UInt8.ofNat_toNat] at hn
  exact hn h hc

theorem Number.text_inNumber (x : Number) : ∀ c ∈ x.text, InNumber c ∧ c < 0x61 := by
  intro c hc
  rcases List.mem_append.1 hc with hc | hc
  · rcases List.mem_append.1 hc with hc | hc
    · rcases hs : x.sign with _ | _ | _ <;> rw [hs] at hc
      · exact absurd hc List.not_mem_nil
      · rw [List.mem_singleton.1 hc]
        decide
      · rw [List.mem_singleton.1 hc]
        decide
    · rcases hr : x.radix with _ | _ <;> rw [hr] at hc
      · exact absurd hc List.not_mem_nil
      · rcases List.mem_pair.1 hc with rfl | rfl <;> decide
  · rcases x.isDigit c hc with ⟨hlo, hhi⟩ | ⟨-, hlo, hhi⟩
    · exact ⟨.inl ⟨hlo, hhi⟩, UInt8.lt_of_le_of_lt hhi (by decide)⟩
    · exact ⟨.inr (.inr (.inr (.inr (.inl ⟨hlo, hhi⟩)))), UInt8.lt_of_le_of_lt hhi (by decide)⟩

theorem inNumber_typed {x : Number} {typed : List UInt8} (h : typed.map upper = x.text) :
    ∀ c ∈ typed, InNumber c := by
  intro c hc
  obtain ⟨hnum, hlt⟩ := x.text_inNumber (upper c) (h ▸ List.mem_map_of_mem hc)
  exact inNumber_of_upper hnum hlt

theorem numLoop_spaces (enout : Bool) (fparm : List UInt8) {sp : List UInt8} (hsp : Spaces sp) (s : List UInt8) :
    numLoop enout fparm (sp ++ s) = numLoop enout fparm s := by
  induction sp with
  | nil => rfl
  | cons c sp ih =>
    obtain ⟨rfl, hsp'⟩ := List.forall_mem_cons.1 hsp
    rw [List.cons_append, numLoop]
    exact ih hsp'

theorem numLoop_digits {p : List UInt8} : ∀ {fparm : List UInt8}, (∀ c ∈ p, InNumber c) → ∀ s : List UInt8,
    numLoop false fparm (p ++ s) = numLoop false (fparm ++ p.map upper) s := by
  induction p with
  | nil => simp
  | cons c p ih =>
    intro fparm hp s
    obtain ⟨hc, hp⟩ := List.forall_mem_cons.1 hp
    rw [List.cons_append, numLoop, if_neg (hc.ne (by decide)), if_neg (hc.ne (by decide)), if_pos hc,
      if_neg Bool.false_ne_true, ih hp, List.map_cons, List.append_assoc, List.singleton_append]

theorem strLoop_quote (fparm s : List UInt8) : strLoop true fparm (QUOTE :: s) = strLoop false fparm s := by
  rw [strLoop.eq_def]
  rfl

theorem strLoop_plain {c : UInt8} (hq : c ≠ QUOTE) (hb : c ≠ BACKSLASH) (fparm s : List UInt8) :
    strLoop true fparm (c :: s) = strLoop true (fparm ++ [c]) s := by
  rw [strLoop.eq_def]
  dsimp only
  rw [if_pos rfl, if_neg hq, if_neg hb]

theorem strLoop_escaped (c : UInt8) (fparm s : List UInt8) :
    strLoop true fparm (BACKSLASH :: c :: s) = strLoop true (fparm ++ [c]) s := by
  rw [strLoop.eq_def]
  rfl

theorem strLoop_after {c : UInt8} (h : ¬ (c = COMMA ∨ c = RPAR)) (fparm s : List UInt8) :
    strLoop false fparm (c :: s) = strLoop false fparm s := by
  rw [strLoop.eq_def]
  dsimp only
  rw [if_neg Bool.false_ne_true, if_neg h]

theorem strLoop_stop {c : UInt8} (h : c = COMMA ∨ c = RPAR) (fparm s : List UInt8) :
    strLoop false fparm (c :: s) = some ⟨fparm, .str, c :: s⟩ := by
  rw [strLoop.eq_def]
  dsimp only
  rw [if_neg Bool.false_ne_true, if_pos h]

theorem strLoop_spaces (fparm : List UInt8) {sp : List UInt8} (hsp : Spaces sp) (s : List UInt8) :
    strLoop false fparm (sp ++ s) = strLoop false fparm s := by
  induction sp with
  | nil => rfl
  | cons c sp ih =>
    obtain ⟨rfl, hsp'⟩ := List.forall_mem_cons.1 hsp
    rw [List.cons_append, strLoop_after (by decide), ih hsp']

theorem strLoop_items (s : List UInt8) : ∀ (items : List StrItem) (fparm : List UInt8),
    strLoop true fparm (items.flatMap StrItem.text ++ QUOTE :: s) = strLoop false (fparm ++ items.map StrItem.byte) s
  | [], fparm => by
    rw [List.map_nil, List.append_nil]
    exact strLoop_quote fparm s
  | .plain c h :: items, fparm => by
    have ih := strLoop_items s items (fparm ++ [c])
    rw [List.append_assoc, List.singleton_append] at ih
    rw [List.map_cons, StrItem.byte, ← ih]
    exact strLoop_plain h.2.1 h.2.2 _ _
  | .escaped c h :: items, fparm => by
    have ih := strLoop_items s items (fparm ++ [c])
    rw [List.append_assoc, List.singleton_append] at ih
    rw [List.map_cons, StrItem.byte, ← ih]
    exact strLoop_escaped _ _ _

end DataRecorder.Usmart
