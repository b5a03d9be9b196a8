/-
  The buffers of `usmart_get_fname` (`USMART/usmart_str.c`), as `usmart_cmd_rec` calls it.

  The name is copied up to the first parenthesis, whatever its length; the two
  captures of the type and of the first parameter count their bytes.

  * `nameOffset_spec`: the offset is the last space or `*` that separates;
  * `fname_eq`: what is copied of the name;
  * `nameBounded_iff`: the lines whose name fits into the buffer.
-/
import DataRecorder.Usmart.Scanner

namespace DataRecorder.Usmart

open Base

/-! ## The name on the line -/

/-- At `i` stands a space or `*` of the line that separates: it is not the first byte, it comes before the
first `(`, and the next byte behind it that is no space is neither `(` nor `*`, if there is one. -/
structure Separates (str : List UInt8) (i : ℕ) : Prop where
  pos : 0 < i
  before : LPAR ∉ str.take i
  blank : str[i]? = some SPACE ∨ str[i]? = some STAR
  next : ∀ c, ((str.drop (i + 1)).dropWhile (· = SPACE)).head? = some c → c ≠ LPAR ∧ c ≠ STAR

/-- The name starts at `k`, behind the last byte that separates. -/
inductive NameFrom (line : List UInt8) : ℕ → Prop
  | zero (h : ∀ i, ¬ Separates line i) : NameFrom line 0
  | behind {i} (h : Separates line i) (hlast : ∀ j > i, ¬ Separates line j) : NameFrom line (i + 1)

/-- The name is cut off at `rest`: it begins with a parenthesis in no quotes, the first one, or is empty.
`odd` is said of the quotes before the name. -/
def Cut (odd : Bool) : List UInt8 → List UInt8 → Prop
  | [], rest => ∀ c, rest.head? = some c → (c = LPAR ∨ c = RPAR) ∧ odd = false
  | c :: name, rest => (c = LPAR ∨ c = RPAR → odd = true) ∧ Cut (if c = QUOTE then !odd else odd) name rest

/-- The name part of the line. -/
def NamePart (line name : List UInt8) : Prop :=
  ∃ k rest, NameFrom line k ∧ line.drop k = name ++ rest ∧ Cut false name rest

theorem NameFrom.unique {line : List UInt8} {k l : ℕ} (hk : NameFrom line k) (hl : NameFrom line l) : k = l := by
  cases hk with
  | zero h =>
    cases hl with
    | zero => rfl
    | behind h' => exact absurd h' (h _)
  | @behind i h hlast =>
    cases hl with
    | zero h' => exact absurd h (h' _)
    | @behind j h' hlast' =>
      rcases Nat.lt_trichotomy i j with hij | rfl | hij
      · exact absurd h' (hlast j hij)
      · rfl
      · exact absurd h (hlast' i hij)

theorem exists_cut (l : List UInt8) : ∀ odd : Bool, ∃ name rest, l = name ++ rest ∧ Cut odd name rest := by
  induction l with
  | nil =>
    intro odd
    exact ⟨[], [], rfl, fun c hc => by cases hc⟩
  | cons c l ih =>
    intro odd
    by_cases hc : (c = LPAR ∨ c = RPAR) ∧ odd = false
    · refine ⟨[], c :: l, rfl, ?_⟩
      rintro d ⟨⟩
      exact hc
    · obtain ⟨name, rest, rfl, hcut⟩ := ih (if c = QUOTE then !odd else odd)
      refine ⟨c :: name, rest, rfl, fun hparen => ?_, hcut⟩
      rw [← Bool.not_eq_false]
      exact fun hodd => hc ⟨hparen, hodd⟩

/-! ## The offset -/

/-- The test of the second loop of `usmart_get_fname`. -/
theorem separates_iff {pre str : List UInt8} {c : UInt8} (hpre : LPAR ∉ pre) (hc : c ≠ LPAR) :
    Separates (pre ++ c :: str) (pre.length + 1) ↔ (str.head? = some SPACE ∨ str.head? = some STAR) ∧
      usmartSearchNextc str ≠ some LPAR ∧ usmartSearchNextc str ≠ some STAR := by
  have hsplit : pre ++ c :: str = (pre ++ [c]) ++ str := by simp
  have hlen : (pre ++ [c]).length = pre.length + 1 := by simp
  have htake : (pre ++ c :: str).take (pre.length + 1) = pre ++ [c] := by rw [hsplit, List.take_left' hlen]
  have hget : (pre ++ c :: str)[pre.length + 1]? = str.head? := by
    simp [List.getElem?_append_right, List.head?_eq_getElem?]
  have hdrop : (pre ++ c :: str).drop (pre.length + 1 + 1) = str.tail := by
    rw [hsplit, ← List.drop_drop, List.drop_left' hlen, List.drop_one]
  constructor
  · intro h
    have hblank := h.blank
    have hnext := h.next
    rw [hget] at hblank
    rw [hdrop] at hnext
    exact ⟨hblank, fun h => (hnext _ h).1 rfl, fun h => (hnext _ h).2 rfl⟩
  · rintro ⟨hblank, hlpar, hstar⟩
    refine ⟨Nat.succ_pos _, ?_, by rwa [hget], fun d hd => ?_⟩
    · rw [htake]
      simp [hpre, Ne.symm hc]
    · rw [hdrop] at hd
      constructor
      · rintro rfl
        exact hlpar hd
      · rintro rfl
        exact hstar hd

/-- Where the second loop of `usmart_get_fname` ends. -/
theorem nameOffset_spec : ∀ (l : List UInt8) {pre : List UInt8} (offset : ℕ), LPAR ∉ pre →
    (nameOffset pre.length offset l = offset ∧ ∀ j > pre.length, ¬ Separates (pre ++ l) j) ∨
      Separates (pre ++ l) (nameOffset pre.length offset l) ∧
        ∀ j > nameOffset pre.length offset l, ¬ Separates (pre ++ l) j
  | [], pre, offset, hpre => by
    refine .inl ⟨rfl, fun j hj h => ?_⟩
    have hnone : (pre ++ [])[j]? = none := by simpa using Nat.le_of_lt hj
    rcases h.blank with hb | hb <;> rw [hnone] at hb <;> cases hb
  | c :: str, pre, offset, hpre => by
    by_cases hc : c = LPAR
    · rw [nameOffset, if_pos hc]
      refine .inl ⟨rfl, fun j hj h => h.before ?_⟩
      rw [hc, List.mem_take_iff_getElem]
      exact ⟨pre.length, by simp; omega, by simp⟩
    have hsplit : pre ++ c :: str = (pre ++ [c]) ++ str := by simp
    have hpre' : LPAR ∉ pre ++ [c] := by simp [hpre, Ne.symm hc]
    have ih := fun offset => nameOffset_spec str offset hpre'
    rw [← hsplit, List.length_append, List.length_singleton] at ih
    rw [nameOffset, if_neg hc]
    dsimp only
    split_ifs with htest
    · rcases ih (pre.length + 1) with ⟨heq, hnot⟩ | h
      · rw [heq]
        exact .inr ⟨(separates_iff hpre hc).2 htest, hnot⟩
      · exact .inr h
    · rcases ih offset with ⟨heq, hnot⟩ | h
      · refine .inl ⟨heq, fun j hj h => ?_⟩
        rcases Nat.lt_or_eq_of_le (Nat.succ_le_of_lt hj) with hlt | rfl
        · exact hnot j hlt h
        · exact htest ((separates_iff hpre hc).1 h)
      · exact .inr h

/-- **The name starts behind the offset.** -/
theorem nameFrom_nameOffset (line : List UInt8) :
    NameFrom line (if nameOffset 0 0 line ≠ 0 then nameOffset 0 0 line + 1 else 0) := by
  rcases @nameOffset_spec line [] 0 List.not_mem_nil with ⟨heq, hnot⟩ | ⟨h, hlast⟩
  · rw [List.length_nil] at heq hnot
    rw [if_neg (not_not.2 heq)]
    exact .zero fun i h => hnot i h.pos h
  · rw [List.length_nil, List.nil_append] at h hlast
    rw [if_pos (Nat.pos_iff_ne_zero.1 h.pos)]
    exact .behind h hlast

/-! ## The copy of the name -/

namespace Scan

theorem take_same (s : Scan) (c : UInt8) : (s.take c).fover = s.fover ∧ (s.take c).nchar = s.nchar := by
  simp only [take]
  split_ifs <;> exact ⟨rfl, rfl⟩

theorem take_fname_eq {s : Scan} (h : s.fover ≠ 0) (c : UInt8) : (s.take c).fname = s.fname := by
  simp only [take, if_neg h]
  split_ifs <;> rfl

/-- In the list, nothing is added to the name. -/
theorem loop_fname_eq (l : List UInt8) : ∀ s : Scan, s.fover ≠ 0 → (s.loop l).2.fname = s.fname := by
  induction l with
  | nil => exact fun _ _ => rfl
  | cons c l ih =>
    have hnext : ∀ s : Scan, s.fover ≠ 0 → ((s.take c).loop l).2.fname = s.fname := fun s h => by
      rw [ih _ ((take_same s c).1.symm ▸ h), take_fname_eq h]
    intro s h
    rw [loop]
    split_ifs with _ _ hone
    · exact hnext { s with fover := s.fover + 1 } (Nat.succ_ne_zero _)
    · rfl
    · exact hnext { s with fover := s.fover - 1 } (by dsimp only; omega)
    · exact hnext { s with nchar := !s.nchar } h
    · exact hnext s h

theorem take_name {s : Scan} (h : s.fover = 0) (c : UInt8) :
    s.take c = { s with fname := s.fname ++ [c].filter (· ≠ SPACE) } := by
  rw [take, if_pos h]
  by_cases hc : c = SPACE <;> simp [hc]

/-- **What is copied**: the name up to where it is cut off, without its spaces. -/
theorem loop_cut {name rest : List UInt8} : ∀ {s : Scan}, s.fover = 0 → Cut s.nchar name rest →
    (s.loop (name ++ rest)).2.fname = s.fname ++ name.filter (· ≠ SPACE) := by
  induction name with
  | nil =>
    intro s hs hcut
    cases rest with
    | nil => simp [loop]
    | cons c rest =>
      obtain ⟨hparen, hodd⟩ := hcut c rfl
      rw [List.nil_append, loop]
      rcases hparen with rfl | rfl
      · rw [if_pos ⟨rfl, hodd⟩, loop_fname_eq _ _ (by rw [(take_same _ _).1]; exact Nat.succ_ne_zero _),
          take_fname_eq (Nat.succ_ne_zero _)]
        simp
      · rw [if_neg fun h => absurd h.1 (by decide), if_pos ⟨rfl, hodd⟩, if_pos hs]
        simp
  | cons c name ih =>
    rintro s hs ⟨hparen, hcut⟩
    have hquote : (s.quote c).fover = 0 := hs
    have hs' : ((s.quote c).take c).fover = 0 := (take_same _ c).1.trans hquote
    rw [List.cons_append, loop_step _ hparen, ih hs' (by rwa [(take_same _ c).2]), take_name hquote]
    by_cases hc : c = SPACE <;> simp [quote, hc]

/-! ## The counters -/

/-- After `n` bytes. -/
structure Within (s : Scan) (n : ℕ) : Prop where
  fover : s.fover ≤ n
  temp : s.temp ≤ n + 2
  pcnt : s.pcnt ≤ n
  parmnum : s.parmnum ≤ n
  fpname : s.fpname.length ≤ 5

theorem Within.take {s : Scan} {n : ℕ} (h : s.Within n) {m : ℕ} (hm : m ≤ n + 1) (c : UInt8) (b : Bool) :
    ({ s with fover := m, nchar := b }.take c).Within (n + 1) := by
  obtain ⟨-, htemp, hpcnt, hnum, hfp⟩ := h
  simp only [Scan.take]
  split_ifs <;> constructor <;> simp at * <;> omega

theorem loop_within (l : List UInt8) : ∀ {s : Scan} {n : ℕ}, s.Within n → (s.loop l).2.Within (n + l.length) := by
  induction l with
  | nil => exact fun h => h
  | cons c l ih =>
    intro s n h
    have hlen : n + (c :: l).length = n + 1 + l.length := by
      rw [List.length_cons]
      omega
    have hstop : ∀ m ≤ n, ({ s with fover := m } : Scan).Within (n + 1 + l.length) := fun m hm =>
      ⟨by dsimp only; omega, by have := h.temp; dsimp only; omega, by have := h.pcnt; dsimp only; omega,
        by have := h.parmnum; dsimp only; omega, h.fpname⟩
    have hfover := h.fover
    rw [hlen, loop]
    split_ifs
    · exact ih (h.take (Nat.succ_le_succ hfover) c s.nchar)
    · exact hstop s.fover hfover
    · exact hstop 0 (Nat.zero_le n)
    · exact ih (h.take (by omega) c s.nchar)
    · exact ih (h.take (Nat.le_succ_of_le hfover) c (!s.nchar))
    · exact ih (h.take (Nat.le_succ_of_le hfover) c s.nchar)

end Scan

/-- **The name that `usmart_get_fname` gives.** -/
theorem fname_eq {line name : List UInt8} (h : NamePart line name) :
    (usmartGetFname line).fname = name.filter (· ≠ SPACE) := by
  obtain ⟨k, rest, hfrom, hdrop, hcut⟩ := h
  have hstart : (if nameOffset 0 0 line ≠ 0 then line.drop (nameOffset 0 0 line + 1) else line) = name ++ rest := by
    rw [← hdrop, hfrom.unique (nameFrom_nameOffset line)]
    split_ifs <;> simp
  rw [usmartGetFname]
  dsimp only
  rw [hstart, Scan.loop_cut rfl hcut]
  rfl

theorem Scan.Within.mono {s : Scan} {m n : ℕ} (h : s.Within m) (hmn : m ≤ n) : s.Within n :=
  ⟨Nat.le_trans h.fover hmn, Nat.le_trans h.temp (Nat.add_le_add_right hmn 2), Nat.le_trans h.pcnt hmn,
    Nat.le_trans h.parmnum hmn, h.fpname⟩

theorem retType_length (str : List UInt8) : ∀ {fpname : List UInt8}, fpname.length ≤ 5 →
    (retType fpname str).length ≤ 5 := by
  induction str with
  | nil => exact fun h => h
  | cons c str ih =>
    intro fpname h
    rw [retType]
    split_ifs with hkeep
    · exact h
    · refine ih ?_
      rw [List.length_append, List.length_singleton]
      exact hkeep.2
    · exact h
    · exact ih h

theorem nameOffset_lt (line : List UInt8) (h : nameOffset 0 0 line ≠ 0) : nameOffset 0 0 line < line.length := by
  rcases @nameOffset_spec line [] 0 List.not_mem_nil with ⟨heq, -⟩ | ⟨hsep, -⟩
  · exact absurd heq h
  · rcases hsep.blank with hblank | hblank
    · exact (List.getElem?_eq_some_iff.1 hblank).1
    · exact (List.getElem?_eq_some_iff.1 hblank).1

/-! ## Bounds -/

/-- The scan of the name and of the list, in `usmart_get_fname`. -/
def fnameScan (line : List UInt8) : Scan :=
  (Scan.start.loop (if nameOffset 0 0 line ≠ 0 then line.drop (nameOffset 0 0 line + 1) else line)).2

/-- The name and the captures fit into their buffers, and a name that does not fit is rejected; the counters
are `u8` that do not wrap. -/
structure NameBounded (line : List UInt8) : Prop where
  fname : (usmartGetFname line).fname.length + 1 ≤ maxFnameLen
  retType : (retType [] line).length + 1 ≤ 6
  fpname : (fnameScan line).fpname.length + 1 ≤ 6
  rejected : ∀ name, NamePart line name → maxFnameLen < (name.filter (· ≠ SPACE)).length + 1 →
    (usmartGetFname line).sta = .funcErr
  offset : nameOffset 0 0 line + 1 < 256
  counters : (fnameScan line).Within 253

/-- The name part has at most 29 bytes that are no spaces. -/
def ShortName (line : List UInt8) : Prop := ∀ name, NamePart line name → name.countP (· ≠ SPACE) < maxFnameLen

theorem exists_namePart (line : List UInt8) : ∃ name, NamePart line name := by
  obtain ⟨name, rest, hsplit, hcut⟩ := exists_cut (line.drop _) false
  exact ⟨name, _, rest, nameFrom_nameOffset line, hsplit, hcut⟩

theorem fnameScan_within (line : List UInt8) : (fnameScan line).Within line.length := by
  have hstart : Scan.start.Within 0 := ⟨le_rfl, by decide, le_rfl, le_rfl, Nat.zero_le 5⟩
  refine (Scan.loop_within _ hstart).mono ?_
  split_ifs
  · rw [List.length_drop]
    omega
  · exact (Nat.zero_add _).le

/-- The name decides. -/
theorem nameBounded_of_fname {line : List UInt8} (hlen : line.length < usartRecLen)
    (h : (usmartGetFname line).fname.length < maxFnameLen) : NameBounded line := by
  have hwithin := fnameScan_within line
  simp only [usartRecLen] at hlen
  refine ⟨h, Nat.succ_le_succ (retType_length line (Nat.zero_le 5)), Nat.succ_le_succ hwithin.fpname, ?_, ?_,
    hwithin.mono (by omega)⟩
  · intro name hname hlong
    rw [← fname_eq hname] at hlong
    exact absurd h (Nat.not_lt.2 (Nat.le_of_lt_succ hlong))
  · by_cases hzero : nameOffset 0 0 line = 0
    · rw [hzero]
      decide
    · have hlt := nameOffset_lt line hzero
      omega

/-- **The name fits into its buffer** if and only if the line has a short one. -/
theorem nameBounded_iff {line : List UInt8} (hlen : line.length < usartRecLen) :
    NameBounded line ↔ ShortName line := by
  constructor
  · intro h name hname
    have hfname := h.fname
    rw [fname_eq hname, ← List.countP_eq_length_filter] at hfname
    exact hfname
  · intro h
    obtain ⟨name, hname⟩ := exists_namePart line
    refine nameBounded_of_fname hlen ?_
    rw [fname_eq hname, ← List.countP_eq_length_filter]
    exact h name hname

theorem nameBounded_read : (ascii "u32 read_addr(0X20000000)").length < usartRecLen ∧
    NameBounded (ascii "u32 read_addr(0X20000000)") := by
  refine ⟨by decide, (nameBounded_iff (by decide)).2 fun name hname => ?_⟩
  have hfname : (usmartGetFname (ascii "u32 read_addr(0X20000000)")).fname = ascii "read_addr" := by decide +kernel
  rw [List.countP_eq_length_filter, ← fname_eq hname, hfname]
  decide

/-- Thirty letters. -/
theorem not_nameBounded : ¬ ∀ line : List UInt8, line.length < usartRecLen → NameBounded line := by
  intro h
  have hfname := (h (List.replicate 30 0x61) (by decide)).fname
  revert hfname
  decide +kernel

end DataRecorder.Usmart
