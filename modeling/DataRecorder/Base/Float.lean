/-
  Rounded arithmetic.

  A `Rounding` takes a rational to the number that stands for it, or to an
  infinity.  `FloatVal R` holds the values that the rounding `R` leaves alone, and
  its operations round the exact result.  There is one zero, of positive sign.

  `FloatFormat.rounding` rounds to the nearest number of a binary format, to the
  even one of two; `exact` does not round.

  * `round_round`: a rounded number is a number of the format;
  * `round_bounds`: within the normal range, rounding is off by at most a half.
-/
import Mathlib.Data.Int.Log
import Mathlib.Data.Rat.Floor
import Mathlib.Algebra.Order.Round
import Mathlib.Tactic.Linarith
import Mathlib.Tactic.Ring
import Mathlib.Tactic.FieldSimp
import Mathlib.Tactic.Positivity

namespace Base

/-! ## The nearest integer -/

/-- The integer nearest to `x`, the even one of two that are equally near. -/
def roundEven (x : ℚ) : ℤ :=
  if Int.fract x < 1 / 2 then ⌊x⌋
  else if 1 / 2 < Int.fract x then ⌊x⌋ + 1
  else if 2 ∣ ⌊x⌋ then ⌊x⌋ else ⌊x⌋ + 1

@[simp] theorem roundEven_intCast (n : ℤ) : roundEven n = n := by simp [roundEven]

theorem abs_roundEven_sub_le (x : ℚ) : |(roundEven x : ℚ) - x| ≤ 1 / 2 := by
  have hx := Int.floor_add_fract x
  have h₀ := Int.fract_nonneg x
  have h₁ := Int.fract_lt_one x
  rw [abs_le]
  unfold roundEven
  split_ifs <;> push_cast <;> constructor <;> linarith

theorem abs_roundEven_le {x : ℚ} {n : ℕ} (h : |x| ≤ n) : |roundEven x| ≤ n := by
  have hr := abs_roundEven_sub_le x
  rw [abs_le] at h hr ⊢
  have h₁ : (roundEven x : ℚ) < (n : ℤ) + 1 := by push_cast; linarith
  have h₂ : (-(n : ℤ) : ℚ) - 1 < roundEven x := by push_cast; linarith
  constructor
  · exact_mod_cast Int.sub_one_lt_iff.1 (by exact_mod_cast h₂)
  · exact Int.lt_add_one_iff.1 (by exact_mod_cast h₁)

/-! ## The integer part -/

/-- The integer part of `q`: rounded towards zero. -/
def truncate (q : ℚ) : ℤ := q.num.tdiv q.den

theorem truncate_of_nonneg {q : ℚ} (h : 0 ≤ q) : truncate q = ⌊q⌋ := by
  rw [truncate, Rat.floor_def', Int.tdiv_eq_ediv_of_nonneg (Rat.num_nonneg.2 h)]

theorem truncate_neg (q : ℚ) : truncate (-q) = -truncate q := by
  rw [truncate, Rat.num_neg_eq_neg_num, Rat.den_neg_eq_den, Int.neg_tdiv, truncate]

@[simp] theorem truncate_intCast (n : ℤ) : truncate n = n := by
  rw [truncate, Rat.num_intCast, Rat.den_intCast, Nat.cast_one, Int.tdiv_one]

theorem abs_truncate_sub_lt (q : ℚ) : |(truncate q : ℚ) - q| < 1 := by
  have hfloor {q : ℚ} (h : 0 ≤ q) : |(truncate q : ℚ) - q| < 1 := by
    rw [truncate_of_nonneg h, abs_lt]
    constructor
    · linarith [Int.lt_floor_add_one q]
    · linarith [Int.floor_le q]
  rcases le_total 0 q with h | h
  · exact hfloor h
  · have := hfloor (neg_nonneg.2 h)
    rw [truncate_neg, Int.cast_neg, ← neg_sub', abs_neg] at this
    exact this

theorem natAbs_truncate_lt {q : ℚ} {n : ℕ} : (truncate q).natAbs < n ↔ |q| < n := by
  have hfloor {q : ℚ} (h : 0 ≤ q) : (truncate q).natAbs < n ↔ q < n := by
    have hnonneg := Int.floor_nonneg.2 h
    rw [truncate_of_nonneg h, ← Int.cast_natCast n, ← Int.floor_lt]
    omega
  rcases le_total 0 q with h | h
  · rw [abs_of_nonneg h, hfloor h]
  · rw [abs_of_nonpos h, ← hfloor (neg_nonneg.2 h), truncate_neg, Int.natAbs_neg]

/-! ## Formats -/

/-- A binary format: its precision and the exponents of its normal numbers. -/
structure FloatFormat where
  prec : ℕ
  emin : ℤ
  emax : ℤ
  prec_pos : 0 < prec

namespace FloatFormat

variable (F : FloatFormat)

/-- The exponent of the unit in the last place of the numbers about `q`. -/
def ulpExp (q : ℚ) : ℤ := max (Int.log 2 |q|) F.emin + 1 - F.prec

/-- The unit in the last place of the numbers about `q`. -/
def ulp (q : ℚ) : ℚ := 2 ^ F.ulpExp q

theorem ulp_pos (q : ℚ) : 0 < F.ulp q := zpow_pos two_pos _

theorem abs_lt_ulp_mul (q : ℚ) : |q| < 2 ^ F.prec * F.ulp q := by
  have h : |q| < 2 ^ (Int.log 2 |q| + 1) := Int.lt_zpow_succ_log_self one_lt_two |q|
  refine lt_of_lt_of_le h ?_
  rw [ulp, ← zpow_natCast, ← zpow_add₀ two_ne_zero]
  refine zpow_le_zpow_right₀ one_le_two ?_
  have := le_max_left (Int.log 2 |q|) F.emin
  rw [ulpExp]; omega

theorem ulp_le {q : ℚ} (h : 2 ^ F.emin ≤ |q|) : F.ulp q ≤ |q| := by
  have hq : 0 < |q| := lt_of_lt_of_le (zpow_pos two_pos _) h
  have hlog : F.emin ≤ Int.log 2 |q| :=
    (Int.zpow_le_iff_le_log one_lt_two hq).1 (by exact_mod_cast h)
  refine le_trans ?_ (Int.zpow_log_le_self one_lt_two hq)
  push_cast
  refine zpow_le_zpow_right₀ one_le_two ?_
  have := F.prec_pos
  rw [ulpExp, max_eq_left hlog]; omega

/-- The unit in the last place of `n * 2 ^ k` divides it, if its digits and its exponent are
within the format. -/
theorem dvd_of_digits {n k : ℤ} (hn : |n| < 2 ^ F.prec) (hk : F.emin + 1 - F.prec ≤ k) :
    ∃ m : ℤ, (n : ℚ) * 2 ^ k = m * F.ulp (n * 2 ^ k) := by
  rcases eq_or_ne n 0 with rfl | hn₀
  · exact ⟨0, by simp⟩
  have hn₁ : (0 : ℚ) < |(n : ℚ)| := abs_pos.2 (by exact_mod_cast hn₀)
  have h2 : (0 : ℚ) < 2 ^ k := zpow_pos two_pos k
  have habs : |(n : ℚ) * 2 ^ k| = |(n : ℚ)| * 2 ^ k := by rw [abs_mul, abs_of_pos h2]
  have hlog : Int.log 2 |(n : ℚ) * 2 ^ k| < F.prec + k := by
    refine (Int.lt_zpow_iff_log_lt one_lt_two (by rw [habs]; exact mul_pos hn₁ h2)).1 ?_
    push_cast
    rw [habs, zpow_add₀ two_ne_zero, zpow_natCast]
    exact mul_lt_mul_of_pos_right (by exact_mod_cast hn) h2
  obtain ⟨j, hj⟩ : ∃ j : ℕ, F.ulpExp (n * 2 ^ k) + j = k := by
    refine Int.le.dest ?_
    have : max (Int.log 2 |(n : ℚ) * 2 ^ k|) F.emin ≤ k + F.prec - 1 :=
      max_le (by omega) (by omega)
    rw [ulpExp]; omega
  refine ⟨n * 2 ^ j, ?_⟩
  calc (n : ℚ) * 2 ^ k = n * 2 ^ (F.ulpExp (n * 2 ^ k) + j) := by rw [hj]
    _ = (n * 2 ^ j : ℤ) * F.ulp (n * 2 ^ k) := by
      rw [zpow_add₀ two_ne_zero, zpow_natCast, ulp]; push_cast; ring

end FloatFormat

/-- A floating-point value: a number, an infinity or a NaN. -/
inductive Fp where
  | num (q : ℚ)
  | inf (neg : Bool)
  | nan
  deriving DecidableEq

/-! ## Rounding to a format -/

namespace FloatFormat

variable {F : FloatFormat}

/-- `q`, rounded to the format. -/
def round (F : FloatFormat) (q : ℚ) : Fp :=
  let r := roundEven (q / F.ulp q) * F.ulp q
  if 2 ^ (F.emax + 1) ≤ |r| then .inf (decide (r < 0)) else .num r

theorem round_of_lt {q : ℚ} (h : |roundEven (q / F.ulp q) * F.ulp q| < 2 ^ (F.emax + 1)) :
    F.round q = .num (roundEven (q / F.ulp q) * F.ulp q) := by
  rw [round, if_neg (not_le.2 h)]

theorem round_of_dvd {q : ℚ} {m : ℤ} (h : q = m * F.ulp q) (hq : |q| < 2 ^ (F.emax + 1)) :
    F.round q = .num q := by
  have hm : q / F.ulp q = m := (div_eq_iff (F.ulp_pos q).ne').2 h
  have hr : (roundEven (q / F.ulp q) : ℚ) * F.ulp q = q := by rw [hm, roundEven_intCast, ← h]
  rw [round_of_lt (by rwa [hr]), hr]

/-- The number `n * 2 ^ k` is left alone, if its digits and its exponent are within the
format. -/
theorem round_of_digits {n k : ℤ} (hn : |n| ≤ 2 ^ F.prec) (hk : F.emin + 1 - F.prec ≤ k)
    (h : |(n : ℚ) * 2 ^ k| < 2 ^ (F.emax + 1)) : F.round (n * 2 ^ k) = .num (n * 2 ^ k) := by
  rcases hn.lt_or_eq with hlt | heq
  · obtain ⟨m, hm⟩ := F.dvd_of_digits hlt hk
    exact round_of_dvd hm h
  -- a power of two: one digit less, and the exponent one higher
  obtain ⟨p, hp⟩ := Nat.exists_eq_succ_of_ne_zero F.prec_pos.ne'
  have hdvd : (2 : ℤ) ∣ n := by
    rw [← dvd_abs, heq, hp, pow_succ]; exact dvd_mul_left _ _
  obtain ⟨n', rfl⟩ := hdvd
  have hn' : |n'| < 2 ^ F.prec := by
    have : 0 < (2 : ℤ) ^ F.prec := by positivity
    rw [abs_mul, abs_two] at heq; omega
  have hmove : ((2 * n' : ℤ) : ℚ) * 2 ^ k = n' * 2 ^ (k + 1) := by
    rw [zpow_add₀ two_ne_zero]; push_cast; ring
  rw [hmove] at h ⊢
  obtain ⟨m, hm⟩ := F.dvd_of_digits hn' (show F.emin + 1 - F.prec ≤ k + 1 by omega)
  exact round_of_dvd hm h

/-- **A rounded number is a number of the format.** -/
theorem round_round {q r : ℚ} (hr : F.round q = .num r) : F.round r = .num r := by
  rcases le_or_gt (2 ^ (F.emax + 1)) |roundEven (q / F.ulp q) * F.ulp q| with h | h
  · rw [round, if_pos h] at hr; cases hr
  rw [round_of_lt h, Fp.num.injEq] at hr
  subst hr
  have hn : |roundEven (q / F.ulp q)| ≤ 2 ^ F.prec := by
    have hq : |q / F.ulp q| ≤ (2 ^ F.prec : ℕ) := by
      rw [abs_div, abs_of_pos (F.ulp_pos q), div_le_iff₀ (F.ulp_pos q)]
      push_cast
      exact (F.abs_lt_ulp_mul q).le
    exact_mod_cast abs_roundEven_le hq
  refine round_of_digits hn ?_ h
  have := le_max_right (Int.log 2 |q|) F.emin
  rw [ulpExp]; omega

/-- **The rounding error**: a normal number is off by at most a half. -/
theorem round_bounds {q : ℚ} (h₁ : 2 ^ F.emin ≤ |q|) (h₂ : |q| < 2 ^ F.emax) :
    ∃ r, F.round q = .num r ∧ |q| / 2 ≤ |r| ∧ |r| ≤ 2 * |q| := by
  have hu := F.ulp_pos q
  have herr : |roundEven (q / F.ulp q) * F.ulp q - q| ≤ |q| / 2 := by
    calc |roundEven (q / F.ulp q) * F.ulp q - q|
        = |(roundEven (q / F.ulp q) : ℚ) - q / F.ulp q| * F.ulp q := by
          rw [← abs_of_pos hu, ← abs_mul, sub_mul, abs_of_pos hu, div_mul_cancel₀ _ hu.ne']
      _ ≤ 1 / 2 * |q| :=
          mul_le_mul (abs_roundEven_sub_le _) (F.ulp_le h₁) hu.le (by norm_num)
      _ = |q| / 2 := by ring
  have hle : |roundEven (q / F.ulp q) * F.ulp q| ≤ 2 * |q| := by
    have := abs_sub_abs_le_abs_sub (roundEven (q / F.ulp q) * F.ulp q) q
    have := abs_nonneg q
    linarith
  have hge : |q| / 2 ≤ |roundEven (q / F.ulp q) * F.ulp q| := by
    have := abs_sub_abs_le_abs_sub q (roundEven (q / F.ulp q) * F.ulp q)
    rw [abs_sub_comm] at this
    linarith
  refine ⟨_, round_of_lt ?_, hge, hle⟩
  refine lt_of_le_of_lt hle ?_
  rw [zpow_add₀ two_ne_zero, zpow_one]
  linarith

end FloatFormat

/-! ## Roundings and their values -/

/-- What stands for a rational.  A number that stands for another stands for itself. -/
structure Rounding where
  round : ℚ → Fp
  round_round {q r : ℚ} : round q = .num r → round r = .num r

def FloatFormat.rounding (F : FloatFormat) : Rounding := ⟨F.round, round_round⟩

def binary32 : FloatFormat := ⟨24, -126, 127, by decide⟩

def binary64 : FloatFormat := ⟨53, -1022, 1023, by decide⟩

def exact : Rounding := ⟨.num, fun _ => rfl⟩

/-- A value of a rounded arithmetic. -/
structure FloatVal (R : Rounding) where
  val : Fp
  isFloat : ∀ q, val = .num q → R.round q = .num q

namespace FloatVal

variable {R : Rounding}

instance : DecidableEq (FloatVal R)
  | ⟨x, _⟩, ⟨y, _⟩ => if h : x = y then isTrue (by subst h; rfl) else isFalse fun heq => h (congrArg val heq)

theorem ext_val : ∀ {x y : FloatVal R}, x.val = y.val → x = y
  | ⟨_, _⟩, ⟨_, _⟩, rfl => rfl

def ofRat (q : ℚ) : FloatVal R := ⟨R.round q, fun _ h => R.round_round h⟩

def ofInt (z : ℤ) : FloatVal R := ofRat z

def inf (neg : Bool) : FloatVal R := ⟨.inf neg, nofun⟩

def nan : FloatVal R := ⟨.nan, nofun⟩

def add (x y : FloatVal R) : FloatVal R :=
  match x.val, y.val with
  | .num a, .num b => ofRat (a + b)
  | .inf s, .inf t => if s = t then inf s else nan
  | .inf s, .num _ => inf s
  | .num _, .inf t => inf t
  | _, _ => nan

def sub (x y : FloatVal R) : FloatVal R :=
  match x.val, y.val with
  | .num a, .num b => ofRat (a - b)
  | .inf s, .inf t => if s = t then nan else inf s
  | .inf s, .num _ => inf s
  | .num _, .inf t => inf !t
  | _, _ => nan

def mul (x y : FloatVal R) : FloatVal R :=
  match x.val, y.val with
  | .num a, .num b => ofRat (a * b)
  | .inf s, .inf t => inf (s ^^ t)
  | .inf s, .num b => if b = 0 then nan else inf (s ^^ decide (b < 0))
  | .num a, .inf t => if a = 0 then nan else inf (decide (a < 0) ^^ t)
  | _, _ => nan

def div (x y : FloatVal R) : FloatVal R :=
  match x.val, y.val with
  | .num a, .num b =>
    if b = 0 then (if a = 0 then nan else inf (decide (a < 0))) else ofRat (a / b)
  | .inf s, .num b => inf (s ^^ decide (b < 0))
  | .num _, .inf _ => ofRat 0
  | _, _ => nan

/-- The conversion to a signed integer: towards zero, saturating, and `0` of a NaN. -/
def toInt32 (x : FloatVal R) : Int32 :=
  match x.val with
  | .num q => Int32.ofInt (max (-2 ^ 31) (min (2 ^ 31 - 1) (q.num.tdiv q.den)))
  | .inf neg => if neg then Int32.minValue else Int32.maxValue
  | .nan => 0

def toUInt32 (x : FloatVal R) : UInt32 :=
  match x.val with
  | .num q => UInt32.ofNat (min (2 ^ 32 - 1) (q.num.tdiv q.den).toNat)
  | .inf neg => if neg then 0 else UInt32.ofNat (2 ^ 32 - 1)
  | .nan => 0

/-- `x < y`, for the values of two arithmetics; false of a NaN. -/
def lt {R' : Rounding} (x : FloatVal R) (y : FloatVal R') : Bool :=
  match x.val, y.val with
  | .num a, .num b => a < b
  | .inf s, .num _ => s
  | .num _, .inf t => !t
  | .inf s, .inf t => s && !t
  | _, _ => false

/-- `x` is a number between `l` and `u` in size. -/
def Within (l u : ℚ) (x : FloatVal R) : Prop := ∃ q, x.val = .num q ∧ l ≤ |q| ∧ |q| ≤ u

theorem Within.ne_zero {l u : ℚ} {x : FloatVal R} (hx : x.Within l u) (h : 0 < l) :
    x.val ≠ .num 0 := by
  obtain ⟨q, hq, hl, -⟩ := hx
  rw [hq]
  rintro ⟨⟩
  rw [abs_zero] at hl
  linarith

/-- A value of size `1` and more is not cut down to zero. -/
theorem Within.toInt32_ne_zero {l u : ℚ} {x : FloatVal R} (hx : x.Within l u) (h : 1 ≤ l) :
    x.toInt32 ≠ 0 := by
  obtain ⟨q, hq, hl, -⟩ := hx
  have hnum : |q| * q.den = |(q.num : ℚ)| := by
    have := congrArg abs (Rat.mul_den_eq_num q)
    rwa [abs_mul, Nat.abs_cast] at this
  have hden : (q.den : ℚ) ≤ |(q.num : ℚ)| := by
    rw [← hnum]; exact le_mul_of_one_le_left (Nat.cast_nonneg q.den) (h.trans hl)
  have hdiv : q.num.tdiv q.den ≠ 0 := by
    rw [← Int.natAbs_pos, Int.natAbs_tdiv, Int.natAbs_natCast]
    have : (q.den : ℤ) ≤ q.num.natAbs := by rw [Int.natCast_natAbs]; exact_mod_cast hden
    exact Nat.div_pos (by omega) q.den_pos
  intro h₀
  have := congrArg Int32.toInt h₀
  rw [toInt32, hq] at this
  simp only [Int32.toInt_ofInt, Int32.size, Int32.toInt_zero] at this
  rw [Int.bmod_eq_of_le (by omega) (by omega)] at this
  omega

/-! ### Bounds within the normal range of a format -/

variable {F : FloatFormat}

theorem within_ofRat {l u q : ℚ} (hl : 2 ^ F.emin ≤ l) (hu : u < 2 ^ F.emax) (h₁ : l ≤ |q|)
    (h₂ : |q| ≤ u) : Within (l / 2) (2 * u) (ofRat (R := F.rounding) q) := by
  obtain ⟨r, hr, hlr, hru⟩ := FloatFormat.round_bounds (hl.trans h₁) (lt_of_le_of_lt h₂ hu)
  exact ⟨r, hr, by linarith, by linarith⟩

theorem within_ofInt {l u : ℚ} {z : ℤ} (hl : 2 ^ F.emin ≤ l) (hu : u < 2 ^ F.emax) (h₁ : l ≤ |z|)
    (h₂ : |z| ≤ u) : Within (l / 2) (2 * u) (ofInt (R := F.rounding) z) :=
  within_ofRat hl hu (by exact_mod_cast h₁) (by exact_mod_cast h₂)

theorem Within.mul {l u l' u' : ℚ} {x y : FloatVal F.rounding} (hx : x.Within l u)
    (hy : y.Within l' u') (h₀ : 0 ≤ l') (hl : 2 ^ F.emin ≤ l * l') (hu : u * u' < 2 ^ F.emax) :
    (x.mul y).Within (l * l' / 2) (2 * (u * u')) := by
  obtain ⟨a, ha, hla, hau⟩ := hx
  obtain ⟨b, hb, hlb, hbu⟩ := hy
  rw [FloatVal.mul, ha, hb]
  refine within_ofRat hl hu ?_ ?_ <;> rw [abs_mul]
  · exact mul_le_mul hla hlb h₀ (abs_nonneg a)
  · exact mul_le_mul hau hbu (abs_nonneg b) ((abs_nonneg a).trans hau)

theorem Within.div {l u l' u' : ℚ} {x y : FloatVal F.rounding} (hx : x.Within l u)
    (hy : y.Within l' u') (h₀ : 0 ≤ l) (h₀' : 0 < l') (hl : 2 ^ F.emin ≤ l / u')
    (hu : u / l' < 2 ^ F.emax) : (x.div y).Within (l / u' / 2) (2 * (u / l')) := by
  obtain ⟨a, ha, hla, hau⟩ := hx
  obtain ⟨b, hb, hlb, hbu⟩ := hy
  have hb₀ : 0 < |b| := lt_of_lt_of_le h₀' hlb
  rw [FloatVal.div, ha, hb]
  simp only [if_neg (abs_pos.1 hb₀)]
  refine within_ofRat hl hu ?_ ?_ <;> rw [abs_div]
  · exact div_le_div₀ (h₀.trans hla) hla hb₀ hbu
  · exact div_le_div₀ ((abs_nonneg a).trans hau) hau h₀' hlb

/-! ### Conversion to integers -/

theorem toInt32_toInt {R : Rounding} {x : FloatVal R} {q : ℚ} (h : x.val = .num q) :
    x.toInt32.toInt = max (-2 ^ 31) (min (2 ^ 31 - 1) (truncate q)) := by
  rw [toInt32, h]
  simp only [Int32.toInt_ofInt, Int32.size, truncate]
  exact Int.bmod_eq_of_le (by omega) (by omega)

theorem toInt32_toInt_of_abs_lt {R : Rounding} {x : FloatVal R} {q : ℚ} (h : x.val = .num q)
    (hq : |q| < 2 ^ 31) : x.toInt32.toInt = truncate q := by
  have hn := (natAbs_truncate_lt (n := 2 ^ 31)).2 (by exact_mod_cast hq)
  rw [toInt32_toInt h]
  omega

theorem toUInt32_toNat {R : Rounding} {x : FloatVal R} {q : ℚ} (h : x.val = .num q) (h₀ : 0 ≤ q)
    (hq : q < 2 ^ 32) : (x.toUInt32.toNat : ℤ) = ⌊q⌋ := by
  have hfloor : 0 ≤ ⌊q⌋ := Int.floor_nonneg.2 h₀
  have hlt : ⌊q⌋ < 2 ^ 32 := Int.floor_lt.2 (by exact_mod_cast hq)
  have htrunc : q.num.tdiv q.den = ⌊q⌋ := truncate_of_nonneg h₀
  rw [toUInt32, h]
  simp only [htrunc, UInt32.toNat_ofNat']
  omega

/-! ### Exact arithmetic -/

section
variable {x y : FloatVal exact} {a b : ℚ}

theorem val_add (hx : x.val = .num a) (hy : y.val = .num b) : (x.add y).val = .num (a + b) := by
  rw [add, hx, hy]
  rfl

theorem val_sub (hx : x.val = .num a) (hy : y.val = .num b) : (x.sub y).val = .num (a - b) := by
  rw [sub, hx, hy]
  rfl

theorem val_mul (hx : x.val = .num a) (hy : y.val = .num b) : (x.mul y).val = .num (a * b) := by
  rw [mul, hx, hy]
  rfl

theorem val_div (hx : x.val = .num a) (hy : y.val = .num b) (hb : b ≠ 0) :
    (x.div y).val = .num (a / b) := by
  rw [div, hx, hy]
  simp only [if_neg hb]
  rfl

/-- A division by zero yields an infinity. -/
theorem val_div_zero (hx : x.val = .num a) (hy : y.val = .num 0) (ha : a ≠ 0) :
    (x.div y).val = .inf (decide (a < 0)) := by
  rw [div, hx, hy]
  simp only [if_pos, if_neg ha]
  rfl

end

end FloatVal

end Base
