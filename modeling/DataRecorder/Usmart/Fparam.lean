/-
  The parameters of a command (`usmart_get_parmpos`, `usmart_get_fparam` in
  `USMART/usmart_str.c`).

  `readParams` are the parameters on the line, whatever their number; the code stores
  them one after the other (`fparam_eq`).  The stores are recorded with their index,
  and the arrays go on behind their ends.

  * `inBounds_iff`: every store is inside its array, if and only if the line has at
    most ten parameters, of at most 200 bytes, and its strings are closed.
-/
import DataRecorder.Base.Decimal
import DataRecorder.Usmart.Receive
import DataRecorder.Usmart.Str

namespace DataRecorder.Usmart

open Base

def maxParm : ℕ := 10

def parmLen : ℕ := 200

/-- The results of `usmart_cmd_rec` and its parts. -/
inductive Status where
  | ok
  | funcErr
  | parmErr
  | parmOver
  | noFuncFind
  deriving DecidableEq

/-- An element of an array of `usmart_dev` that is stored to. -/
inductive Store where
  | plentbl (i : ℕ)
  | parm (i : ℕ)
  deriving DecidableEq

/-- `usmart_dev`, as far as a command changes it.  `stores` are the stores of the last
`usmart_get_fparam` to the arrays, and `sums` the exact sums of the positions it computed. -/
structure Dev where
  pnum : ℕ
  id : ℕ
  parmtype : UInt16
  plentbl : ℕ → UInt8
  parm : ℕ → UInt8
  stores : List Store
  sums : List ℕ

/-! ## The code -/

/-- A `u32` in memory, the low byte first. -/
def wordBytes (v : UInt32) : List UInt8 :=
  [v.toUInt8, (v >>> 8).toUInt8, (v >>> 16).toUInt8, (v >>> 24).toUInt8]

/-- A parameter, as `usmart_get_fparam` stores it. -/
inductive Param where
  | num (v : UInt32)
  | str (s : List UInt8)
  deriving DecidableEq

def Param.bytes : Param → List UInt8
  | num v => wordBytes v
  | str s => s ++ [0]

/-- `len`: the length of a number, and the one of a string with its NUL. -/
def Param.len : Param → UInt8
  | num _ => 4
  | str s => UInt8.ofNat s.length + 1

namespace Dev

/-- The sum that `usmart_get_parmpos` forms, without its wrap. -/
def exactPos (d : Dev) (num : ℕ) : ℕ := ((List.range num).map fun i => (d.plentbl i).toNat).sum

def usmartGetParmpos (d : Dev) (num : ℕ) : UInt8 := (List.range num).foldl (fun temp i => temp + d.plentbl i) 0

/-- The parameter `p` is stored as number `n`. -/
def store (d : Dev) (n : ℕ) (p : Param) : Dev :=
  let pos := (d.usmartGetParmpos n).toNat
  { d with
    parm := blit d.parm pos p.bytes
    parmtype := match p with
      | .num _ => d.parmtype &&& ~~~(1 <<< UInt16.ofNat n)
      | .str _ => d.parmtype ||| 1 <<< UInt16.ofNat n
    plentbl := Function.update d.plentbl n p.len
    stores := .plentbl n :: ((List.range p.bytes.length).map fun i => .parm (pos + i)) ++ d.stores
    sums := d.exactPos n :: d.sums }

/-- `plentbl` is cleared. -/
def clear (d : Dev) : Dev :=
  { d with
    plentbl := fun i => if i < maxParm then 0 else d.plentbl i
    stores := (List.range maxParm).map .plentbl
    sums := [] }

/-- The parameter `i` is a string. -/
def IsStr (d : Dev) (i : ℕ) : Prop := d.parmtype &&& 1 <<< UInt16.ofNat i ≠ 0

/-- The loop of `usmart_get_fparam`: its result, and the number of the parameters. -/
def fparamLoop : ℕ → Dev → ℕ → List UInt8 → Option (Status × Dev × ℕ)
  | 0, _, _, _ => none
  | fuel + 1, d, n, str =>
    let next (d : Dev) (n : ℕ) (rest : List UInt8) : Option (Status × Dev × ℕ) :=
      if Ended rest then some (.ok, d, n) else fparamLoop fuel d n rest
    match usmartGetAparm str with
    | none => none
    | some a =>
      match a.ptype with
      | .num =>
        if a.fparm = [] then next d n a.rest
        else match usmartStr2num a.fparm with
          | .error _ => some (.parmErr, d, n)
          | .ok res =>
            let d := d.store n (.num res)
            if n + 1 > maxParm then some (.parmOver, d, n + 1) else next d (n + 1) a.rest
      | .str =>
        let d := d.store n (.str a.fparm)
        if n + 1 > maxParm then some (.parmOver, d, n + 1) else next d (n + 1) a.rest
      | .err => some (.parmErr, d, n)

end Dev

/-- The search for `(`: what follows it, or that there is none.  On an empty string it goes on
behind the NUL. -/
def findList : List UInt8 → Option (Option (List UInt8))
  | [] => none
  | c :: str =>
    if c = LPAR then some (some str)
    else match str with
      | [] => some none
      | c :: str => findList (c :: str)

/-- `usmart_get_fparam`; the number is stored to `*parn` if the result is `ok`. -/
def usmartGetFparam (d : Dev) (str : List UInt8) : Option (Status × Dev × ℕ) :=
  match findList str with
  | none => none
  | some none => some (.funcErr, d.clear, 0)
  | some (some list) => d.clear.fparamLoop (list.length + 1) 0 list

/-! ## The parameters on the line -/

/-- How the list of parameters ends. -/
inductive Ending where
  /-- with `)` or the NUL -/
  | closed
  /-- with a parameter that is none -/
  | illegal
  /-- there is no list -/
  | missing
  /-- the NUL is passed -/
  | passed
  deriving DecidableEq

structure Reading where
  params : List Param
  ending : Ending
  deriving DecidableEq

def Reading.cons (p : Param) (r : Reading) : Reading := { r with params := p :: r.params }

/-- The parameter, if there is one, and `none` if it is illegal. -/
def Aparm.param (a : Aparm) : Option (Option Param) :=
  match a.ptype with
  | .num =>
    if a.fparm = [] then some none
    else match usmartStr2num a.fparm with
      | .error _ => none
      | .ok v => some (some (.num v))
  | .str => some (some (.str a.fparm))
  | .err => none

def readLoop : ℕ → List UInt8 → Reading
  | 0, _ => ⟨[], .passed⟩
  | fuel + 1, str =>
    match usmartGetAparm str with
    | none => ⟨[], .passed⟩
    | some a =>
      let next := if Ended a.rest then ⟨[], .closed⟩ else readLoop fuel a.rest
      match a.param with
      | none => ⟨[], .illegal⟩
      | some none => next
      | some (some p) => next.cons p

/-- The parameters of a list. -/
def readList (list : List UInt8) : Reading := readLoop (list.length + 1) list

/-- The parameters of a line. -/
def readParams (line : List UInt8) : Reading :=
  match findList line with
  | none => ⟨[], .passed⟩
  | some none => ⟨[], .missing⟩
  | some (some list) => readList list

namespace Dev

def storeAll (d : Dev) (n : ℕ) : List Param → Dev
  | [] => d
  | p :: ps => (d.store n p).storeAll (n + 1) ps

end Dev

/-- The result for a list that ends so, if it is not too long. -/
def Ending.status : Ending → Option Status
  | closed => some .ok
  | illegal => some .parmErr
  | missing => some .funcErr
  | passed => none

/-- What becomes of the parameters if there are already `n` of them. -/
def Reading.stored (r : Reading) (d : Dev) (n : ℕ) : Option (Status × Dev × ℕ) :=
  if n + r.params.length ≤ maxParm then
    r.ending.status.map fun sta => (sta, d.storeAll n r.params, n + r.params.length)
  else some (.parmOver, d.storeAll n (r.params.take (maxParm + 1 - n)), maxParm + 1)

theorem Reading.stored_cons (r : Reading) (p : Param) (d : Dev) {n : ℕ} (hn : n ≤ maxParm) :
    (r.cons p).stored d n =
      if n + 1 > maxParm then some (.parmOver, d.store n p, n + 1) else r.stored (d.store n p) (n + 1) := by
  have hlen : (r.cons p).params.length = r.params.length + 1 := rfl
  have hassoc : n + (r.params.length + 1) = n + 1 + r.params.length := by omega
  rw [stored, hlen, hassoc]
  by_cases hover : n + 1 > maxParm
  · obtain rfl : n = maxParm := by omega
    rw [if_neg (by omega), if_pos hover, Nat.add_sub_cancel_left]
    rfl
  · rw [if_neg hover, stored]
    by_cases hfit : n + 1 + r.params.length ≤ maxParm
    · rw [if_pos hfit, if_pos hfit]
      rfl
    · rw [if_neg hfit, if_neg hfit, show maxParm + 1 - n = maxParm + 1 - (n + 1) + 1 by omega]
      rfl

theorem fparamLoop_eq : ∀ (fuel : ℕ) (d : Dev) {n : ℕ} (str : List UInt8), n ≤ maxParm →
    d.fparamLoop fuel n str = (readLoop fuel str).stored d n
  | 0, d, n, str, hn => by
    rw [readLoop, Reading.stored, if_pos (by simpa using hn)]
    rfl
  | fuel + 1, d, n, str, hn => by
    have hnext : ∀ (d : Dev) {n : ℕ} (rest : List UInt8), n ≤ maxParm →
        (if Ended rest then some (.ok, d, n) else d.fparamLoop fuel n rest) =
          Reading.stored (if Ended rest then ⟨[], .closed⟩ else readLoop fuel rest) d n := by
      intro d n rest hn
      split_ifs
      · rw [Reading.stored, if_pos (by simpa using hn)]
        rfl
      · exact fparamLoop_eq fuel d rest hn
    have hstop : ∀ e : Ending, (⟨[], e⟩ : Reading).stored d n = e.status.map fun sta => (sta, d, n) := by
      intro e
      rw [Reading.stored, if_pos (by simpa using hn)]
      rfl
    have hstore : ∀ (p : Param) (rest : List UInt8),
        (if n + 1 > maxParm then some (.parmOver, d.store n p, n + 1)
          else if Ended rest then some (.ok, d.store n p, n + 1)
          else (d.store n p).fparamLoop fuel (n + 1) rest) =
        ((if Ended rest then ⟨[], .closed⟩ else readLoop fuel rest).cons p : Reading).stored d n := by
      intro p rest
      rw [Reading.stored_cons _ p d hn]
      by_cases hover : n + 1 > maxParm
      · rw [if_pos hover, if_pos hover]
      · rw [if_neg hover, if_neg hover, hnext _ _ (Nat.le_of_not_lt hover)]
    rw [Dev.fparamLoop, readLoop]
    rcases usmartGetAparm str with _ | a
    · exact (hstop .passed).symm
    dsimp only
    rw [Aparm.param]
    rcases a.ptype with _ | _ | _
    · dsimp only
      by_cases hempty : a.fparm = []
      · rw [if_pos hempty, if_pos hempty, hnext d a.rest hn]
      · rw [if_neg hempty, if_neg hempty]
        rcases usmartStr2num a.fparm with e | v
        · exact (hstop .illegal).symm
        · exact hstore (.num v) a.rest
    · exact hstore (.str a.fparm) a.rest
    · exact (hstop .illegal).symm

/-- **`usmart_get_fparam` stores the parameters of the line**, the eleventh included. -/
theorem fparam_eq (d : Dev) (line : List UInt8) :
    usmartGetFparam d line = (readParams line).stored d.clear 0 := by
  rw [usmartGetFparam, readParams]
  rcases findList line with _ | _ | list
  · rfl
  · rfl
  · exact fparamLoop_eq _ _ _ (Nat.zero_le _)

/-! ## The layout -/

/-- What the parameters take. -/
def total (ps : List Param) : ℕ := (ps.map fun p => p.bytes.length).sum

theorem total_append (ps qs : List Param) : total (ps ++ qs) = total ps + total qs := by simp [total]

theorem total_concat (ps : List Param) (p : Param) : total (ps ++ [p]) = total ps + p.bytes.length := by
  simp [total]

theorem Param.len_toNat {p : Param} (h : p.bytes.length < 256) : p.len.toNat = p.bytes.length := by
  cases p with
  | num v => rfl
  | str s =>
    have hlen : (Param.str s).bytes.length = s.length + 1 := by simp [bytes]
    rw [hlen] at h ⊢
    have hofNat : UInt8.ofNat s.length + 1 = UInt8.ofNat (s.length + 1) := by simp
    rw [len, hofNat, UInt8.toNat_ofNat_of_lt' h]

/-- The parameters `ps` are stored, and nothing but them. -/
structure Stored (d : Dev) (ps : List Param) : Prop where
  table : ∀ i (h : i < ps.length), d.plentbl i = ps[i].len
  memory : slice d.parm 0 (total ps) = ps.flatMap Param.bytes
  types : ∀ i (h : i < ps.length), d.IsStr i ↔ ∃ s, ps[i] = .str s
  parm : ∀ k, .parm k ∈ d.stores ↔ k < total ps
  plentbl : ∀ i, .plentbl i ∈ d.stores ↔ i < maxParm ∨ i < ps.length
  sums : ∀ s ∈ d.sums, s ≤ total ps

theorem stored_nil (d : Dev) : Stored d.clear [] where
  table i h := absurd h (Nat.not_lt_zero i)
  memory := rfl
  types i h := absurd h (Nat.not_lt_zero i)
  parm k := by simp [Dev.clear, total]
  plentbl i := by simp [Dev.clear]
  sums s hs := absurd hs List.not_mem_nil

/-- The positions, as long as they fit into a byte. -/
theorem Stored.pos {d : Dev} {ps : List Param} (h : Stored d ps) (htotal : total ps < 256) :
    ∀ {i : ℕ}, i ≤ ps.length → d.exactPos i = total (ps.take i) ∧
      (d.usmartGetParmpos i).toNat = total (ps.take i)
  | 0, _ => ⟨rfl, rfl⟩
  | i + 1, hi => by
    obtain ⟨hexact, hpos⟩ := h.pos htotal (Nat.le_of_succ_le hi)
    have htake : total (ps.take (i + 1)) = total (ps.take i) + ps[i].bytes.length := by
      rw [List.take_succ_eq_append_getElem hi, total_concat]
    have hle : total (ps.take (i + 1)) ≤ total ps := by
      conv_rhs => rw [← List.take_append_drop (i + 1) ps, total_append]
      exact Nat.le_add_right _ _
    have hlen : (d.plentbl i).toNat = ps[i].bytes.length := by
      rw [h.table i hi, Param.len_toNat (by omega)]
    constructor
    · rw [htake, ← hexact, ← hlen]
      simp [Dev.exactPos, List.range_succ]
    · have hadd : d.usmartGetParmpos (i + 1) = d.usmartGetParmpos i + d.plentbl i := by
        simp [Dev.usmartGetParmpos, List.range_succ]
      rw [hadd, UInt8.toNat_add, hpos, hlen, htake, Nat.mod_eq_of_lt (by omega)]

theorem bit_toBitVec : ∀ i < 16, (1 <<< UInt16.ofNat i : UInt16).toBitVec = BitVec.twoPow 16 i := by decide

theorem isStr_iff (d : Dev) {i : ℕ} (hi : i < 16) : d.IsStr i ↔ d.parmtype.toBitVec.getLsbD i = true := by
  have hpow : BitVec.twoPow 16 i ≠ 0#16 := by
    intro h
    have hbit := congrArg (BitVec.getLsbD · i) h
    simp [hi] at hbit
  rw [Dev.IsStr, ne_eq, ← UInt16.toBitVec_inj, UInt16.toBitVec_and, bit_toBitVec i hi, BitVec.and_twoPow]
  split_ifs with h
  · exact iff_of_true hpow h
  · exact iff_of_false (fun hne => hne rfl) h

/-- The types after a store. -/
theorem isStr_store (d : Dev) {i n : ℕ} (hi : i < 16) (hn : n < 16) (p : Param) :
    (d.store n p).IsStr i ↔ if i = n then ∃ s, p = .str s else d.IsStr i := by
  rw [isStr_iff _ hi, isStr_iff _ hi]
  cases p with
  | num v =>
    have hbits : (d.store n (.num v)).parmtype.toBitVec = d.parmtype.toBitVec &&& ~~~BitVec.twoPow 16 n := by
      rw [← bit_toBitVec n hn]
      rfl
    rw [hbits, BitVec.getLsbD_and, BitVec.getLsbD_not, BitVec.getLsbD_twoPow]
    split_ifs with h
    · simp [h, hn]
    · simp [hi, Ne.symm h]
  | str s =>
    have hbits : (d.store n (.str s)).parmtype.toBitVec = d.parmtype.toBitVec ||| BitVec.twoPow 16 n := by
      rw [← bit_toBitVec n hn]
      rfl
    rw [hbits, BitVec.getLsbD_or, BitVec.getLsbD_twoPow]
    split_ifs with h
    · simp [h, hn]
    · simp [Ne.symm h]

theorem parm_mem_store (d : Dev) (n k : ℕ) (p : Param) : .parm k ∈ (d.store n p).stores ↔
    ((d.usmartGetParmpos n).toNat ≤ k ∧ k < (d.usmartGetParmpos n).toNat + p.bytes.length) ∨
      .parm k ∈ d.stores := by
  simp only [Dev.store, List.cons_append, List.mem_cons, List.mem_append, List.mem_map, List.mem_range,
    reduceCtorEq, false_or, Store.parm.injEq]
  refine or_congr_left ⟨?_, fun ⟨hlo, hhi⟩ => ⟨k - (d.usmartGetParmpos n).toNat, by omega, by omega⟩⟩
  rintro ⟨j, hj, rfl⟩
  omega

theorem plentbl_mem_store (d : Dev) (n i : ℕ) (p : Param) :
    .plentbl i ∈ (d.store n p).stores ↔ i = n ∨ .plentbl i ∈ d.stores := by
  simp [Dev.store]

theorem Stored.store {d : Dev} {ps : List Param} (h : Stored d ps) (p : Param) (htotal : total ps < 256)
    (hlen : ps.length < 16) : Stored (d.store ps.length p) (ps ++ [p]) := by
  obtain ⟨hexact, hpos⟩ := h.pos htotal le_rfl
  rw [List.take_length] at hexact hpos
  have hcases : ∀ {i}, i < (ps ++ [p]).length ↔ i < ps.length ∨ i = ps.length := by
    intro i
    rw [List.length_append, List.length_singleton]
    omega
  refine ⟨fun i hi => ?_, ?_, fun i hi => ?_, fun k => ?_, fun i => ?_, fun s hs => ?_⟩
  · rcases hcases.1 hi with hi' | rfl
    · rw [List.getElem_append_left hi', ← h.table i hi']
      exact Function.update_of_ne (Nat.ne_of_lt hi') _ _
    · rw [List.getElem_concat_length rfl]
      exact Function.update_self _ _ _
  · rw [total_concat, slice_add, List.flatMap_append, List.flatMap_singleton, Nat.zero_add]
    show slice (blit d.parm _ p.bytes) 0 (total ps) ++ slice (blit d.parm _ p.bytes) (total ps) _ = _
    rw [hpos, slice_blit, slice_blit_outside _ (by omega), h.memory]
  · rcases hcases.1 hi with hi' | rfl
    · rw [isStr_store d (by omega) hlen p, if_neg (Nat.ne_of_lt hi'), h.types i hi', List.getElem_append_left hi']
    · rw [isStr_store d hlen hlen p, if_pos rfl, List.getElem_concat_length rfl]
  · rw [parm_mem_store, hpos, h.parm, total_concat]
    omega
  · rw [plentbl_mem_store, h.plentbl, hcases, or_left_comm, or_comm (a := i = ps.length)]
  · rw [total_concat]
    rcases List.mem_cons.1 (show s ∈ d.exactPos ps.length :: d.sums from hs) with rfl | hs
    · rw [hexact]
      exact Nat.le_add_right _ _
    · exact Nat.le_trans (h.sums s hs) (Nat.le_add_right _ _)

theorem total_le_append (ps qs : List Param) : total ps ≤ total (ps ++ qs) := by
  rw [total_append]
  exact Nat.le_add_right _ _

/-- **The parameters are packed one after the other.** -/
theorem Stored.storeAll : ∀ {qs ps : List Param} {d : Dev}, Stored d ps → total (ps ++ qs) < 256 →
    (ps ++ qs).length ≤ 16 → Stored (d.storeAll ps.length qs) (ps ++ qs)
  | [], ps, d, h, _, _ => by rwa [List.append_nil]
  | q :: qs, ps, d, h, htotal, hlen => by
    have hsplit : ps ++ q :: qs = (ps ++ [q]) ++ qs := by simp
    have hstore := h.store q (Nat.lt_of_le_of_lt (total_le_append _ _) htotal)
      (by rw [List.length_append, List.length_cons] at hlen; omega)
    rw [hsplit] at htotal hlen ⊢
    have hall := hstore.storeAll htotal hlen
    rwa [List.length_append, List.length_singleton] at hall

/-! ## Reading a list -/

theorem aparm_ended {str : List UInt8} (h : Ended str) : usmartGetAparm str = some ⟨[], .num, str⟩ := by
  cases str with
  | nil => rfl
  | cons c str =>
    obtain rfl : c = RPAR := h
    rfl

theorem Aparm.ne_err {a : Aparm} {p : Option Param} (h : a.param = some p) : a.ptype ≠ .err := by
  intro herr
  rw [param, herr] at h
  cases h

/-- A parameter takes at least one byte. -/
theorem rest_lt {str : List UInt8} {a : Aparm} {p : Option Param} (hstr : ¬ Ended str)
    (ha : usmartGetAparm str = some a) (hp : a.param = some p) : a.rest.length < str.length := by
  cases str with
  | nil => exact absurd trivial hstr
  | cons c str => exact Nat.lt_succ_of_le (aparm_progress ha hstr (Aparm.ne_err hp))

theorem readLoop_ended (fuel : ℕ) {str : List UInt8} (h : Ended str) : readLoop (fuel + 1) str = ⟨[], .closed⟩ := by
  rw [readLoop, aparm_ended h]
  exact if_pos h

theorem readLoop_fuel : ∀ {m n : ℕ} {str : List UInt8}, str.length < m → str.length < n →
    readLoop m str = readLoop n str
  | 0, _, _, hm, _ => absurd hm (Nat.not_lt_zero _)
  | _, 0, _, _, hn => absurd hn (Nat.not_lt_zero _)
  | m + 1, n + 1, str, hm, hn => by
    by_cases hstr : Ended str
    · rw [readLoop_ended m hstr, readLoop_ended n hstr]
    rw [readLoop, readLoop]
    rcases ha : usmartGetAparm str with _ | a
    · rfl
    dsimp only
    rcases hp : a.param with _ | p
    · rfl
    · have hlt := rest_lt hstr ha hp
      rw [readLoop_fuel (m := m) (n := n) (by omega) (by omega)]

/-- Reading goes on with the rest. -/
theorem readList_eq {str : List UInt8} {a : Aparm} {p : Option Param} (ha : usmartGetAparm str = some a)
    (hp : a.param = some p) :
    readList str = p.elim (readList a.rest) fun p => (readList a.rest).cons p := by
  by_cases hstr : Ended str
  · rw [aparm_ended hstr] at ha
    obtain rfl := Option.some.inj ha
    obtain rfl := Option.some.inj (show some none = some p from hp)
    rfl
  · have hlt := rest_lt hstr ha hp
    have hnext : (if Ended a.rest then ⟨[], .closed⟩ else readLoop str.length a.rest) = readList a.rest := by
      split_ifs with hrest
      · exact (readLoop_ended _ hrest).symm
      · exact readLoop_fuel hlt (Nat.lt_succ_self _)
    rw [readList, readLoop, ha]
    dsimp only
    rw [hp, hnext]
    cases p <;> rfl

/-- Induction over the parameters of a list. -/
theorem readList_induction {P : List UInt8 → Reading → Prop}
    (ended : ∀ str, Ended str → P str ⟨[], .closed⟩)
    (passed : ∀ str, usmartGetAparm str = none → P str ⟨[], .passed⟩)
    (illegal : ∀ str a, usmartGetAparm str = some a → a.param = none → P str ⟨[], .illegal⟩)
    (skip : ∀ str a, usmartGetAparm str = some a → a.param = some none → P a.rest (readList a.rest) →
      P str (readList a.rest))
    (param : ∀ str a p, usmartGetAparm str = some a → a.param = some (some p) → P a.rest (readList a.rest) →
      P str ((readList a.rest).cons p))
    (str : List UInt8) : P str (readList str) := by
  by_cases hstr : Ended str
  · rw [readList, readLoop_ended _ hstr]
    exact ended str hstr
  rcases ha : usmartGetAparm str with _ | a
  · rw [readList, readLoop, ha]
    exact passed str ha
  rcases hp : a.param with _ | p
  · rw [readList, readLoop, ha]
    dsimp only
    rw [hp]
    exact illegal str a ha hp
  · have hlt := rest_lt hstr ha hp
    rw [readList_eq ha hp]
    cases p with
    | none => exact skip str a ha hp (readList_induction ended passed illegal skip param a.rest)
    | some p => exact param str a p ha hp (readList_induction ended passed illegal skip param a.rest)
termination_by str.length

theorem Aparm.param_le {a : Aparm} {str : List UInt8} {p : Param} (ha : usmartGetAparm str = some a)
    (hp : a.param = some (some p)) : p.bytes.length + a.rest.length ≤ str.length + 3 := by
  have htotal := (numLoop_bounded ha).total
  rw [Aparm.param] at hp
  rcases htype : a.ptype with _ | _ | _
  · rw [htype] at hp htotal
    dsimp only at hp
    split_ifs at hp with hempty
    · cases hp
    have hpos := List.length_pos_iff.2 hempty
    rcases hnum : usmartStr2num a.fparm with e | v
    · rw [hnum] at hp
      cases hp
    · rw [hnum] at hp
      cases hp
      simp only [Param.bytes, wordBytes, List.length_cons, List.length_nil] at htotal ⊢
      omega
  · rw [htype] at hp htotal
    cases hp
    simp only [Param.bytes, List.length_append, List.length_singleton, List.length_nil, if_true] at htotal ⊢
    omega
  · rw [htype] at hp
    cases hp

/-- A number takes four bytes although it may have one on the line. -/
theorem readList_total (list : List UInt8) (k : ℕ) :
    total ((readList list).params.take k) ≤ list.length + 3 * k := by
  induction list using readList_induction generalizing k with
  | ended | passed | illegal =>
    rw [List.take_nil]
    exact Nat.zero_le _
  | skip str a ha hp ih =>
    have hle := (numLoop_bounded ha).rest_le
    have hrest := ih k
    omega
  | param str a p ha hp ih =>
    cases k with
    | zero => exact Nat.zero_le _
    | succ k =>
      have hle := Aparm.param_le ha hp
      have hrest := ih k
      show p.bytes.length + total ((readList a.rest).params.take k) ≤ _
      omega

theorem findList_length : ∀ {line list : List UInt8}, findList line = some (some list) → list.length < line.length
  | [], _, h => by cases h
  | c :: str, list, h => by
    unfold findList at h
    by_cases hc : c = LPAR
    · rw [if_pos hc] at h
      cases h
      exact Nat.lt_succ_self _
    · rw [if_neg hc] at h
      cases str with
      | nil => cases h
      | cons c str => exact Nat.lt_trans (findList_length h) (Nat.lt_succ_self _)

theorem readParams_total (line : List UInt8) (k : ℕ) :
    total ((readParams line).params.take k) ≤ line.length + 3 * k := by
  rw [readParams]
  rcases hfind : findList line with _ | _ | list
  · simp [total]
  · simp [total]
  · have hlt := findList_length hfind
    have hle := readList_total list k
    dsimp only
    omega

/-! ## Bounds -/

def Store.InRange : Store → Prop
  | plentbl i => i < maxParm
  | parm i => i < parmLen

/-- The parameters fit, and the strings of the line are closed. -/
structure Reading.Fits (r : Reading) : Prop where
  ending : r.ending ≠ .passed
  count : r.params.length ≤ maxParm
  size : total r.params ≤ parmLen

/-- No store is outside of its array, no sum wraps, and what does not fit is rejected. -/
def InBounds (d : Dev) (line : List UInt8) : Prop :=
  ∃ sta d' n, usmartGetFparam d line = some (sta, d', n) ∧ (∀ x ∈ d'.stores, x.InRange) ∧
    (∀ s ∈ d'.sums, s < 256) ∧ (¬ (readParams line).Fits → sta ≠ .ok)

variable {d : Dev} {line : List UInt8}

theorem total_take_lt (hlen : line.length < usartRecLen) :
    total ((readParams line).params.take (maxParm + 1)) < 256 := by
  have := readParams_total line (maxParm + 1)
  simp only [usartRecLen, maxParm] at *
  omega

/-- After every call the parameters that were stored are at most eleven. -/
theorem fparam_stored {sta : Status} {d' : Dev} {n : ℕ} (hlen : line.length < usartRecLen)
    (h : usmartGetFparam d line = some (sta, d', n)) :
    Stored d' ((readParams line).params.take (maxParm + 1)) := by
  rw [fparam_eq, Reading.stored, Nat.zero_add] at h
  have hstored : Stored (d.clear.storeAll 0 ((readParams line).params.take (maxParm + 1)))
      ([] ++ (readParams line).params.take (maxParm + 1)) := (stored_nil d).storeAll (total_take_lt hlen)
      (by rw [List.nil_append, List.length_take]; exact Nat.le_trans (Nat.min_le_left _ _) (by decide))
  split_ifs at h with hcount
  · rw [List.take_of_length_le (Nat.le_succ_of_le hcount)] at hstored ⊢
    obtain ⟨sta', -, hsta⟩ := Option.map_eq_some_iff.1 h
    cases hsta
    exact hstored
  · cases h
    exact hstored

/-- **`usmart_get_parmpos` never wraps.** -/
theorem sums_lt {sta : Status} {d' : Dev} {n : ℕ} (hlen : line.length < usartRecLen)
    (h : usmartGetFparam d line = some (sta, d', n)) : ∀ s ∈ d'.sums, s < 256 :=
  fun s hs => Nat.lt_of_le_of_lt ((fparam_stored hlen h).sums s hs) (total_take_lt hlen)

/-- **The stores are inside of the arrays**, if and only if the parameters fit. -/
theorem inBounds_iff (d : Dev) (hlen : line.length < usartRecLen) :
    InBounds d line ↔ (readParams line).Fits := by
  constructor
  · rintro ⟨sta, d', n, h, hrange, -, hreject⟩
    have hstored := fparam_stored hlen h
    have hcount : (readParams line).params.length ≤ maxParm := by
      by_contra hover
      have hmem := (hstored.plentbl maxParm).2 (.inr (by rw [List.length_take]; omega))
      exact Nat.lt_irrefl _ (hrange _ hmem)
    rw [List.take_of_length_le (Nat.le_succ_of_le hcount)] at hstored
    refine ⟨fun hpassed => ?_, hcount, ?_⟩
    · rw [fparam_eq, Reading.stored, Nat.zero_add, if_pos hcount, hpassed] at h
      cases h
    · by_contra hover
      have hmem := (hstored.parm parmLen).2 (Nat.lt_of_not_le hover)
      exact Nat.lt_irrefl _ (hrange _ hmem)
  · intro hfits
    obtain ⟨sta, hsta⟩ : ∃ sta, (readParams line).ending.status = some sta := by
      rcases he : (readParams line).ending with _ | _ | _ | _
      · exact ⟨_, rfl⟩
      · exact ⟨_, rfl⟩
      · exact ⟨_, rfl⟩
      · exact absurd he hfits.ending
    have h : usmartGetFparam d line = some (sta, d.clear.storeAll 0 (readParams line).params,
        (readParams line).params.length) := by
      rw [fparam_eq, Reading.stored, Nat.zero_add, if_pos hfits.count, hsta]
      rfl
    have hstored := fparam_stored hlen h
    rw [List.take_of_length_le (Nat.le_succ_of_le hfits.count)] at hstored
    refine ⟨_, _, _, h, fun x hx => ?_, sums_lt hlen h, fun hnot => absurd hfits hnot⟩
    cases x with
    | plentbl i =>
      rcases (hstored.plentbl i).1 hx with hi | hi
      · exact hi
      · exact Nat.lt_of_lt_of_le hi hfits.count
    | parm k => exact Nat.lt_of_lt_of_le ((hstored.parm k).1 hx) hfits.size

/-- `usmart_dev` after power-up. -/
def Dev.initial : Dev := ⟨0, 0, 0, fun _ => 0, fun _ => 0, [], []⟩

theorem inBounds_read : (readParams (ascii "read_addr(0X20000000)")).Fits ∧
    InBounds .initial (ascii "read_addr(0X20000000)") := by
  have hread : readParams (ascii "read_addr(0X20000000)") = ⟨[.num 0x20000000], .closed⟩ := by decide +kernel
  have hfits : (readParams (ascii "read_addr(0X20000000)")).Fits := by
    rw [hread]
    exact ⟨by decide, by decide, by decide⟩
  exact ⟨hfits, (inBounds_iff _ (by decide +kernel)).2 hfits⟩

/-- Nine numbers and a string of 168 bytes. -/
def tooLarge : List UInt8 := ascii "read_addr(1,1,1,1,1,1,1,1,1,\"" ++ List.replicate 168 0x61 ++ ascii "\")"

/-- The string leaves the array, and the line is not rejected. -/
theorem not_inBounds : ¬ ∀ (d : Dev) (line : List UInt8), line.length < usartRecLen → InBounds d line := by
  intro h
  obtain ⟨sta, d', n, hresult, hrange, -⟩ := h .initial tooLarge (by decide +kernel)
  have hrun : (usmartGetFparam .initial tooLarge).map (fun x => (x.1, decide (.parm 200 ∈ x.2.1.stores))) =
      some (.ok, true) := by decide +kernel
  rw [hresult] at hrun
  obtain ⟨-, hmem⟩ := Prod.mk.inj (Option.some.inj hrun)
  exact absurd (hrange _ (of_decide_eq_true hmem)) (Nat.lt_irrefl 200)

end DataRecorder.Usmart
