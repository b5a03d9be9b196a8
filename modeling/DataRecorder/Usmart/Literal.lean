/-
  The numbers that `usmart_str2num` accepts (`USMART/usmart_str.c`).

  The first loop has two cursors: one goes over every byte, the other one over the
  signs only, and while it stands at a sign, the first one does too.

  * `foldlM_check`: what the first loop finds in a string without signs;
  * `str2num_exact`: the strings that are accepted, and what they are converted to.
-/
import Mathlib.Data.List.Induction
import DataRecorder.Base.Decimal
import DataRecorder.Usmart.Str

namespace DataRecorder.Usmart

open Base

/-- A number with any number of signs before it. -/
structure Literal where
  signs : List UInt8
  radix : Radix
  digits : List UInt8
  isSign : ∀ c ∈ signs, c = MINUS ∨ c = PLUS
  digits_ne_nil : digits ≠ []
  isDigit : ∀ c ∈ digits, radix.IsDigit c

namespace Literal

def text (x : Literal) : List UInt8 := x.signs ++ (x.radix.text ++ x.digits)

/-- Without its signs. -/
def number (x : Literal) : Number := ⟨.none, x.radix, x.digits, x.digits_ne_nil, x.isDigit⟩

/-- The value modulo 2^32, with the last sign. -/
def res (x : Literal) : UInt32 :=
  if x.signs.getLast? = some MINUS then -UInt32.ofNat x.number.magnitude else UInt32.ofNat x.number.magnitude

end Literal

/-! ## The signs -/

/-- `flag` behind the signs. -/
def signFlag (signs : List UInt8) (flag : Sign) : Sign :=
  signs.foldl (fun _ c => if c = MINUS then .minus else .plus) flag

theorem signFlag_eq_minus {signs : List UInt8} (h : ∀ c ∈ signs, c = MINUS ∨ c = PLUS) :
    signFlag signs .none = .minus ↔ signs.getLast? = some MINUS := by
  induction signs using List.reverseRecOn with
  | nil => simp [signFlag]
  | append_singleton signs c _ =>
    simp [signFlag]

theorem Numeral.check_sign {c : UInt8} (h : c = MINUS ∨ c = PLUS) (str : List UInt8) (flag : Sign) :
    Numeral.check ⟨c :: str, 0, 10, flag⟩ c = some ⟨str, 0, 10, if c = MINUS then .minus else .plus⟩ := by
  rcases h with rfl | rfl <;> rfl

theorem foldlM_signs (str : List UInt8) : ∀ {signs : List UInt8} (flag : Sign), (∀ c ∈ signs, c = MINUS ∨ c = PLUS) →
    (signs ++ str).foldlM Numeral.check ⟨signs ++ str, 0, 10, flag⟩ =
      str.foldlM Numeral.check ⟨str, 0, 10, signFlag signs flag⟩
  | [], _, _ => rfl
  | c :: signs, flag, h => by
    obtain ⟨hc, hsigns⟩ := List.forall_mem_cons.1 h
    rw [List.cons_append, List.foldlM_cons, Numeral.check_sign hc]
    exact foldlM_signs str _ hsigns

/-! ## Behind the signs -/

/-- A byte that may stand at `i` behind the signs. -/
def LegalAt (i : ℕ) (c : UInt8) : Prop :=
  (0x30 ≤ c ∧ c ≤ 0x39) ∨ (0x41 ≤ c ∧ c ≤ 0x46) ∨ (c = 0x58 ∧ i = 1)

theorem Numeral.check_unsigned {s s' : Numeral} {c : UInt8} (hs : Unsigned s.str) (h : s.check c = some s') :
    LegalAt s.bnum c ∧ s' = { s with bnum := s.bnum + 1, hexdec := if 0x41 ≤ c then 16 else s.hexdec } := by
  have hstr : (if 0x41 ≤ c then { s with hexdec := 16 } else s).str = s.str := by split_ifs <;> rfl
  rw [Numeral.check] at h
  dsimp only at h
  rw [hstr, if_neg hs.1, if_neg hs.2] at h
  by_cases hlegal : s.Legal c
  swap
  · rw [if_neg hlegal] at h
    cases h
  rw [if_pos hlegal] at h
  constructor
  · rcases hlegal with hdec | ⟨hsign, -⟩ | hhex | hx
    · exact .inl hdec
    · exact absurd hsign (not_or.2 hs)
    · exact .inr (.inl hhex)
    · exact .inr (.inr hx)
  · rw [← Option.some.inj h]
    split_ifs <;> rfl

theorem foldlM_check : ∀ {p : List UInt8} {s s' : Numeral}, Unsigned s.str → p.foldlM Numeral.check s = some s' →
    (∀ i (h : i < p.length), LegalAt (s.bnum + i) p[i]) ∧
      s' = ⟨s.str, s.bnum + p.length, if ∃ c ∈ p, 0x41 ≤ c then 16 else s.hexdec, s.flag⟩
  | [], s, s', _, h => by
    cases h
    exact ⟨fun i hi => absurd hi (Nat.not_lt_zero i), by simp⟩
  | c :: p, s, s', hs, h => by
    rw [List.foldlM_cons] at h
    obtain ⟨s₁, h₁, h⟩ := Option.bind_eq_some_iff.1 h
    obtain ⟨hc, rfl⟩ := Numeral.check_unsigned hs h₁
    have hs' : Unsigned (⟨s.str, s.bnum + 1, if 0x41 ≤ c then 16 else s.hexdec, s.flag⟩ : Numeral).str := hs
    obtain ⟨hp, rfl⟩ := foldlM_check hs' h
    refine ⟨?_, ?_⟩
    · rintro (_ | i) hi
      · exact hc
      · have hi' := hp i (Nat.lt_of_succ_lt_succ hi)
        rwa [Nat.add_assoc, Nat.add_comm 1] at hi'
    · rw [List.length_cons, Nat.add_assoc, Nat.add_comm 1, Numeral.mk.injEq]
      refine ⟨rfl, rfl, ?_, rfl⟩
      simp only [List.mem_cons, exists_eq_or_imp]
      by_cases hp : ∃ d ∈ p, 0x41 ≤ d
      · rw [if_pos hp, if_pos (.inr hp)]
      · rw [if_neg hp]
        exact if_congr (or_iff_left hp).symm rfl rfl

/-! ## What is accepted -/

theorem Literal.check (x : Literal) : x.text.foldlM Numeral.check ⟨x.text, 0, 10, .none⟩ =
    some ⟨x.radix.text ++ x.digits, x.radix.text.length + x.digits.length, UInt32.ofNat x.radix.base,
      signFlag x.signs .none⟩ := by
  rw [Literal.text, foldlM_signs _ _ x.isSign]
  exact x.number.check _

theorem Literal.str2num (x : Literal) : usmartStr2num x.text = .ok x.res := by
  rw [x.number.convert x.check, Literal.res]
  simp only [signFlag_eq_minus x.isSign]

/-- Behind `0X` the legal bytes are digits. -/
theorem isDigit_hex {p : List UInt8} (h : ∀ i (hi : i < (0x30 :: 0x58 :: p).length), LegalAt i (0x30 :: 0x58 :: p)[i]) :
    ∀ c ∈ p, Radix.hex.IsDigit c := by
  intro c hc
  obtain ⟨i, hi, rfl⟩ := List.getElem_of_mem hc
  rcases h (i + 2) (by simpa using hi) with hdec | hhex | ⟨-, hi⟩
  · exact .inl hdec
  · exact .inr ⟨rfl, hhex⟩
  · omega

/-- Without letters the legal bytes are decimal digits. -/
theorem isDigit_dec {p : List UInt8} (h : ∀ i (hi : i < p.length), LegalAt i p[i]) (hhex : ¬ ∃ c ∈ p, 0x41 ≤ c) :
    ∀ c ∈ p, Radix.dec.IsDigit c := by
  intro c hc
  have hsmall : ¬ 0x41 ≤ c := fun h => hhex ⟨c, hc, h⟩
  obtain ⟨i, hi, rfl⟩ := List.getElem_of_mem hc
  rcases h i hi with hdec | hletter | ⟨hx, -⟩
  · exact .inl hdec
  · exact absurd hletter.1 hsmall
  · exact absurd (by rw [hx]; decide) hsmall

/-- A string that is accepted. -/
theorem exists_literal {str : List UInt8} {v : UInt32} (h : usmartStr2num str = .ok v) :
    ∃ x : Literal, str = x.text := by
  obtain ⟨signs, rest, hsigns, hhead, rfl, -, -⟩ := exists_span (fun c => c = MINUS ∨ c = PLUS) str
  have hrest : Unsigned rest := ⟨fun hc => hhead _ hc (.inl rfl), fun hc => hhead _ hc (.inr rfl)⟩
  rw [usmartStr2num, foldlM_signs _ _ hsigns] at h
  rcases hcheck : rest.foldlM Numeral.check ⟨rest, 0, 10, signFlag signs .none⟩ with _ | s
  · rw [hcheck] at h
    cases h
  obtain ⟨hlegal, rfl⟩ := foldlM_check hrest hcheck
  rw [hcheck] at h
  simp only [Nat.zero_add] at h hlegal
  by_cases hhex : ∃ c ∈ rest, 0x41 ≤ c
  · rw [if_pos hhex, if_pos rfl] at h
    by_cases hlen : rest.length < 3
    · rw [if_pos hlen] at h
      cases h
    rw [if_neg hlen] at h
    split at h
    · rename_i p
      have hp : p ≠ [] := by
        rintro rfl
        simp at hlen
      exact ⟨⟨signs, .hex, p, hsigns, hp, isDigit_hex hlegal⟩, rfl⟩
    · cases h
  · rw [if_neg hhex, if_neg (by decide)] at h
    by_cases hlen : rest.length = 0
    · rw [if_pos hlen] at h
      cases h
    have hne : rest ≠ [] := by
      rintro rfl
      exact hlen rfl
    exact ⟨⟨signs, .dec, rest, hsigns, hne, isDigit_dec hlegal hhex⟩, rfl⟩

theorem str2num_error_ne_zero {str : List UInt8} {e : ℕ} (h : usmartStr2num str = .error e) : e ≠ 0 := by
  rw [usmartStr2num] at h
  rcases hcheck : str.foldlM Numeral.check ⟨str, 0, 10, .none⟩ with _ | s
  · rw [hcheck] at h
    cases h
    decide
  rw [hcheck] at h
  dsimp only at h
  split at h
  · split at h
    · cases h
      decide
    split at h
    · cases h
    · cases h
      decide
  · split at h
    · cases h
      decide
    · cases h

/-! ## The counter of the digits -/

theorem Numeral.check_bnum {s s' : Numeral} {c : UInt8} (h : s.check c = some s') : s'.bnum ≤ s.bnum + 1 := by
  rw [Numeral.check] at h
  dsimp only at h
  split_ifs at h <;> cases h <;> simp

theorem foldlM_bnum : ∀ {p : List UInt8} {s s' : Numeral}, p.foldlM Numeral.check s = some s' →
    s'.bnum ≤ s.bnum + p.length
  | [], s, s', h => by
    cases h
    exact le_rfl
  | c :: p, s, s', h => by
    rw [List.foldlM_cons] at h
    obtain ⟨s₁, h₁, h⟩ := Option.bind_eq_some_iff.1 h
    have hstep := Numeral.check_bnum h₁
    have hrest := foldlM_bnum h
    rw [List.length_cons]
    omega

/-- Exactly the literals are accepted, each with its value, what is rejected has an error code, and the
counter of the digits, a `u8`, does not wrap. -/
structure ParsedExactly (str : List UInt8) : Prop where
  accepted : ∀ v, usmartStr2num str = .ok v ↔ ∃ x : Literal, str = x.text ∧ v = x.res
  rejected : (¬ ∃ x : Literal, str = x.text) → ∃ e, e ≠ 0 ∧ usmartStr2num str = .error e
  bnum : ∀ pre s, pre <+: str → pre.foldlM Numeral.check ⟨str, 0, 10, .none⟩ = some s → s.bnum < 256

/-- **Numbers are parsed exactly.** -/
theorem str2num_exact (str : List UInt8) (hlen : str.length ≤ 200) : ParsedExactly str := by
  refine ⟨fun v => ⟨fun h => ?_, ?_⟩, fun hnot => ?_, fun pre s hpre h => ?_⟩
  · obtain ⟨x, rfl⟩ := exists_literal h
    rw [x.str2num] at h
    exact ⟨x, rfl, (Except.ok.inj h).symm⟩
  · rintro ⟨x, rfl, rfl⟩
    exact x.str2num
  · rcases hres : usmartStr2num str with e | v
    · exact ⟨e, str2num_error_ne_zero hres, rfl⟩
    · exact absurd (exists_literal hres) hnot
  · have hbnum := foldlM_bnum h
    have hle := hpre.length_le
    simp only [Nat.zero_add] at hbnum
    omega

theorem threeSigns_digits_ne_nil : ascii "1F" ≠ [] := by decide

/-- `-+-0X1F`. -/
def threeSigns : Literal where
  signs := ascii "-+-"
  radix := .hex
  digits := ascii "1F"
  isSign := forall_mem_of_all (by decide +kernel)
  digits_ne_nil := threeSigns_digits_ne_nil
  isDigit := forall_mem_of_all (by decide +kernel)

/-- The last sign counts. -/
theorem str2num_exact_signs : (ascii "-+-0X1F").length ≤ 200 ∧ usmartStr2num (ascii "-+-0X1F") = .ok (-31) :=
  ⟨by decide, ((str2num_exact (ascii "-+-0X1F") (by decide)).accepted _).2
  ⟨threeSigns, by decide +kernel, by decide +kernel⟩⟩

end DataRecorder.Usmart
