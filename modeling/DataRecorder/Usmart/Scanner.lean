/-
  The scanner of the parameters (`usmart_get_aparm` in `USMART/usmart_str.c`) and its
  callers, `usmart_get_fparam` and `usmart_sys_cmd_exe`.

  The scanner stops nowhere inside of a string, so that a quote that is not closed
  takes it behind the NUL; and the buffer of the system commands is smaller than a
  line.

  * `getAparmRet_eq`: the offset, a `u8`, and what is left of the string;
  * `openAfter_iff`: the lists of parameters that take the scanner behind the NUL;
  * `scansInBounds_iff`: the lines on which the scanner stays in bounds.
-/
import DataRecorder.Usmart.Arguments
import DataRecorder.Usmart.Fname

namespace DataRecorder.Usmart

open Base

/-! ## The code -/

/-- What `usmart_get_aparm` gives: `fparm` before its NUL, `*ptype`, and the offset it returns. -/
structure AparmRet where
  fparm : List UInt8
  ptype : PType
  i : UInt8
deriving DecidableEq

/-- The loop of `usmart_get_aparm`; `none` if it goes on behind the NUL. -/
def aparmLoop (enout : Bool) (type : PType) (string : Bool) (fparm : List UInt8) (i : UInt8) :
    List UInt8 → Option AparmRet
  | [] => if string then none else some ⟨fparm, type, i⟩
  | c :: str =>
    let enout := enout || (c = COMMA && !string)
    if c = RPAR ∧ string = false then some ⟨fparm, type, i⟩
    else if type = .num then
      if InNumber c then
        if enout then some ⟨fparm, type, i⟩
        else aparmLoop enout type string (fparm ++ [upper c]) (i + 1) str
      else if c = QUOTE then
        if enout then some ⟨fparm, type, i⟩ else aparmLoop enout .str true fparm (i + 1) str
      else if c ≠ SPACE ∧ c ≠ COMMA then some ⟨fparm, .err, i⟩
      else aparmLoop enout type string fparm (i + 1) str
    else
      let string := string && c ≠ QUOTE
      if enout then some ⟨fparm, type, i⟩
      else if string then
        if c = BACKSLASH then
          match str with
          | [] => none
          | d :: str => aparmLoop enout type string (fparm ++ [d]) (i + 2) str
        else aparmLoop enout type string (fparm ++ [c]) (i + 1) str
      else aparmLoop enout type string fparm (i + 1) str

def usmartGetAparmRet (str : List UInt8) : Option AparmRet := aparmLoop false .num false [] 0 str

/-- The strings at which the loop of `usmart_get_fparam` calls `usmart_get_aparm`. -/
def aparmCalls : ℕ → ℕ → List UInt8 → List (List UInt8)
  | 0, _, _ => []
  | fuel + 1, n, str =>
    str :: match usmartGetAparm str with
      | none => []
      | some a =>
        match a.param with
        | none => []
        | some none => if Ended a.rest then [] else aparmCalls fuel n a.rest
        | some (some _) => if n + 1 > maxParm ∨ Ended a.rest then [] else aparmCalls fuel (n + 1) a.rest

def maxFnameLen : ℕ := 30

/-- The loop of `usmart_get_cmdname`. -/
def cmdnameLoop (maxlen : ℕ) (cmdname : List UInt8) : List UInt8 → Option (List UInt8)
  | [] => some cmdname
  | c :: str =>
    if c = SPACE then some cmdname
    else if (cmdname ++ [c]).length ≥ maxlen then none
    else cmdnameLoop maxlen (cmdname ++ [c]) str

/-- `usmart_get_cmdname`: `*cmdname` before its NUL, of the length `*nlen`, or `none` for the result 1. -/
def usmartGetCmdname (str : List UInt8) (maxlen : ℕ) : Option (List UInt8) := cmdnameLoop maxlen [] str

def sysCmdTab : List (List UInt8) :=
  [ascii "?", ascii "help", ascii "list", ascii "id", ascii "hex", ascii "dec", ascii "runtime"]

/-- `usmart_dev.sptype`. -/
inductive SpType where
  | dec
  | hex
deriving DecidableEq

/-- What `usmart_sys_cmd_exe` prints. -/
inductive SysOut where
  | help
  | list
  | ids
  | converted (t : SpType) (res : UInt32)
  | display (t : SpType)
  | noTimer
deriving DecidableEq

/-- The argument of `hex` and of `dec`. -/
def sysConvert (t sptype : SpType) (str : List UInt8) : Option (Status × SpType × Option SysOut) :=
  match usmartGetAparm str with
  | none => none
  | some a =>
    if a.ptype = .num then
      match usmartStr2num a.fparm with
      | .ok res => some (.ok, sptype, some (.converted t res))
      | .error e => if e ≠ 4 then some (.parmErr, sptype, none) else some (.ok, t, some (.display t))
    else some (.parmErr, sptype, none)

/-- The argument of `runtime`, with `USMART_ENTIMX_SCAN` zero. -/
def sysRuntime (sptype : SpType) (str : List UInt8) : Option (Status × SpType × Option SysOut) :=
  match usmartGetAparm str with
  | none => none
  | some a =>
    if a.ptype = .num then
      match usmartStr2num a.fparm with
      | .ok _ => some (.ok, sptype, some .noTimer)
      | .error _ => some (.parmErr, sptype, none)
    else some (.parmErr, sptype, none)

/-- `usmart_sys_cmd_exe`: its result, `sptype`, and what it prints. -/
def usmartSysCmdExe (sptype : SpType) (str : List UInt8) : Option (Status × SpType × Option SysOut) :=
  match usmartGetCmdname str maxFnameLen with
  | none => some (.funcErr, sptype, none)
  | some sfname =>
    let str := str.drop sfname.length
    match sysCmdTab.findIdx (· = sfname) with
    | 0 | 1 => some (.ok, sptype, some .help)
    | 2 => some (.ok, sptype, some .list)
    | 3 => some (.ok, sptype, some .ids)
    | 4 => sysConvert .hex sptype str
    | 5 => sysConvert .dec sptype str
    | 6 => sysRuntime sptype str
    | _ => some (.funcErr, sptype, none)

/-- `usmart_sys_cmd_exe` calls `usmart_get_aparm` at `arg`. -/
def SysCall (line arg : List UInt8) : Prop :=
  ∃ sfname, usmartGetCmdname line maxFnameLen = some sfname ∧ sysCmdTab.findIdx (· = sfname) ∈ [4, 5, 6] ∧
    arg = line.drop sfname.length

/-! ## The offset -/

/-- What a call gives, from what it leaves. -/
def Aparm.ret (a : Aparm) (i : UInt8) (str : List UInt8) : AparmRet :=
  ⟨a.fparm, a.ptype, i + UInt8.ofNat (str.length - a.rest.length)⟩

theorem Aparm.ret_cons {a : Aparm} {str : List UInt8} (h : a.rest.length ≤ str.length) (i : UInt8) (c : UInt8) :
    a.ret (i + 1) str = a.ret i (c :: str) := by
  rw [ret, ret, List.length_cons, Nat.succ_sub h, UInt8.add_assoc, UInt8.add_comm 1]
  simp

theorem strLoop_suffix {string : Bool} {fparm str : List UInt8} {a : Aparm}
    (h : strLoop string fparm str = some a) : a.rest <:+ str := by
  fun_induction strLoop string fparm str with
  | case1 | case4 => cases h
  | case2 | case7 =>
    cases h
    exact List.suffix_rfl
  | case3 fparm str ih => exact (ih h).trans (List.suffix_cons _ _)
  | case5 fparm d str _ ih => exact ((ih h).trans (List.suffix_cons _ _)).trans (List.suffix_cons _ _)
  | case6 fparm c str _ _ ih => exact (ih h).trans (List.suffix_cons _ _)
  | case8 string fparm c str _ _ ih => exact (ih h).trans (List.suffix_cons _ _)

theorem numLoop_suffix {enout : Bool} {fparm str : List UInt8} {a : Aparm}
    (h : numLoop enout fparm str = some a) : a.rest <:+ str := by
  fun_induction numLoop enout fparm str with
  | case1 | case2 | case4 | case6 | case8 =>
    cases h
    exact List.suffix_rfl
  | case3 enout fparm str _ ih => exact (ih h).trans (List.suffix_cons _ _)
  | case5 enout fparm c str _ _ _ _ ih => exact (ih h).trans (List.suffix_cons _ _)
  | case7 enout fparm str _ _ _ _ => exact (strLoop_suffix h).trans (List.suffix_cons _ _)
  | case9 enout fparm c str _ _ _ _ _ ih => exact (ih h).trans (List.suffix_cons _ _)

theorem Aparm.map_ret_cons {o : Option Aparm} {str : List UInt8} (h : ∀ a, o = some a → a.rest <:+ str)
    (i : UInt8) (c : UInt8) : o.map (Aparm.ret · (i + 1) str) = o.map (Aparm.ret · i (c :: str)) := by
  cases o with
  | none => rfl
  | some a => exact congrArg some (Aparm.ret_cons (h a rfl).length_le i c)

theorem aparmLoop_str (string : Bool) (fparm : List UInt8) (i : UInt8) (str : List UInt8) :
    aparmLoop false .str string fparm i str = (strLoop string fparm str).map (Aparm.ret · i str) := by
  fun_induction strLoop string fparm str generalizing i with
  | case1 => rfl
  | case2 string fparm hstring => simp [aparmLoop, hstring, Aparm.ret]
  | case3 fparm str ih =>
    rw [← Aparm.map_ret_cons fun a => strLoop_suffix, ← ih]
    conv_lhs => unfold aparmLoop
    simp
  | case4 fparm hq => simp [aparmLoop, hq]
  | case5 fparm d str hq ih =>
    rw [← Aparm.map_ret_cons fun a h => (strLoop_suffix h).trans (List.suffix_cons _ _),
      ← Aparm.map_ret_cons fun a => strLoop_suffix, ← ih, UInt8.add_assoc]
    conv_lhs => unfold aparmLoop
    simp [hq]
  | case6 fparm c str hq hb ih =>
    rw [← Aparm.map_ret_cons fun a => strLoop_suffix, ← ih]
    conv_lhs => unfold aparmLoop
    simp [hq, hb]
  | case7 string fparm c str hstring hstop =>
    rw [Bool.not_eq_true] at hstring
    subst hstring
    rcases hstop with rfl | rfl <;> simp [aparmLoop, Aparm.ret]
  | case8 string fparm c str hstring hstop ih =>
    rw [Bool.not_eq_true] at hstring
    subst hstring
    rw [not_or] at hstop
    rw [← Aparm.map_ret_cons fun a => strLoop_suffix, ← ih]
    conv_lhs => unfold aparmLoop
    simp [hstop.1, hstop.2]

theorem aparmLoop_num (enout : Bool) (fparm : List UInt8) (i : UInt8) (str : List UInt8) :
    aparmLoop enout .num false fparm i str = (numLoop enout fparm str).map (Aparm.ret · i str) := by
  fun_induction numLoop enout fparm str generalizing i with
  | case1 | case2 => simp [aparmLoop, Aparm.ret]
  | case3 enout fparm str _ ih =>
    rw [← Aparm.map_ret_cons fun a => numLoop_suffix, ← ih]
    conv_lhs => unfold aparmLoop
    simp [show ¬ InNumber COMMA by decide, show COMMA ≠ RPAR by decide, show COMMA ≠ QUOTE by decide]
  | case4 fparm c str hr hcomma hnum => 
    simp [aparmLoop, hr, hcomma, hnum, Aparm.ret]
  | case5 enout fparm c str hr hcomma hnum henout ih =>
    rw [Bool.not_eq_true] at henout
    subst henout
    rw [← Aparm.map_ret_cons fun a => numLoop_suffix, ← ih]
    conv_lhs => unfold aparmLoop
    simp [hr, hcomma, hnum]
  | case6 fparm str hr hcomma hnum => simp [aparmLoop, hnum, Aparm.ret]
  | case7 enout fparm str henout hr hcomma hnum =>
    rw [Bool.not_eq_true] at henout
    subst henout
    rw [← Aparm.map_ret_cons fun a => strLoop_suffix, ← aparmLoop_str]
    conv_lhs => unfold aparmLoop
    simp [hr, hcomma, hnum]
  | case8 enout fparm c str hr hcomma hnum hq hspace => 
    simp [aparmLoop, hr, hcomma, hnum, hq, hspace, Aparm.ret]
  | case9 enout fparm c str hr hcomma hnum hq hspace ih =>
    obtain rfl := not_not.1 hspace
    rw [← Aparm.map_ret_cons fun a => numLoop_suffix, ← ih]
    conv_lhs => unfold aparmLoop
    simp [hr, hcomma, hnum, hq]

/-- **The offset leads to what is left.** -/
theorem getAparmRet_eq (str : List UInt8) : usmartGetAparmRet str = (usmartGetAparm str).map (Aparm.ret · 0 str) :=
  aparmLoop_num false [] 0 str

/-! ## The text of a call -/

/-- The bytes that a number may have before it, in it and behind it. -/
def NumberText (p : List UInt8) : Prop := ∀ c ∈ p, InNumber c ∨ c = SPACE

/-- What stands between two parameters. -/
def Separators (q : List UInt8) : Prop := ∀ c ∈ q, c = SPACE ∨ c = COMMA

/-- The number, in capital letters. -/
def numberBytes (p : List UInt8) : List UInt8 := (p.filter fun c => InNumber c).map upper

/-- What stands behind the quote that closes a string. -/
def afterQuote : List UInt8 → Option (List UInt8)
  | [] => none
  | c :: s =>
    if c = QUOTE then some s
    else if c = BACKSLASH then
      match s with
      | [] => none
      | _ :: s => afterQuote s
    else afterQuote s

/-- The bytes of a string before the quote that closes it. -/
def stringBytes : List UInt8 → List UInt8
  | [] => []
  | c :: s =>
    if c = QUOTE then []
    else if c = BACKSLASH then
      match s with
      | [] => []
      | d :: s => d :: stringBytes s
    else c :: stringBytes s

/-- A string begins, and is not closed. -/
def OpenString (str : List UInt8) : Prop :=
  ∃ p s, NumberText p ∧ afterQuote s = none ∧ str = p ++ QUOTE :: s

/-- The bytes of the first argument: those of a number, then those of a string. -/
def argument (str : List UInt8) : List UInt8 :=
  numberBytes (str.takeWhile fun c => InNumber c ∨ c = SPACE) ++
    match str.dropWhile fun c => InNumber c ∨ c = SPACE with
    | [] => []
    | c :: s => if c = QUOTE then stringBytes s else []

theorem numLoop_text {p : List UInt8} : ∀ {fparm : List UInt8}, NumberText p → ∀ t : List UInt8,
    numLoop false fparm (p ++ t) = numLoop false (fparm ++ numberBytes p) t := by
  induction p with
  | nil => simp [numberBytes]
  | cons c p ih =>
    intro fparm hp t
    obtain ⟨hc, hp'⟩ := List.forall_mem_cons.1 hp
    rcases hc with hc | rfl
    · have hbytes : numberBytes (c :: p) = upper c :: numberBytes p := by simp [numberBytes, hc]
      rw [List.cons_append, numLoop, if_neg (hc.ne (by decide)), if_neg (hc.ne (by decide)), if_pos hc,
        if_neg Bool.false_ne_true, ih hp', hbytes, List.append_assoc, List.singleton_append]
    · exact ih hp' t

theorem numLoop_separators {q : List UInt8} (hq : Separators q) (fparm t : List UInt8) :
    numLoop true fparm (q ++ t) = numLoop true fparm t := by
  induction q with
  | nil => rfl
  | cons c q ih =>
    obtain ⟨hc, hq'⟩ := List.forall_mem_cons.1 hq
    rcases hc with rfl | rfl
    · exact ih hq'
    · exact ih hq'

theorem strLoop_behind (fparm u : List UInt8) : strLoop false fparm u =
    some ⟨fparm, .str, u.dropWhile fun c => c ≠ COMMA ∧ c ≠ RPAR⟩ := by
  induction u with
  | nil => simp [strLoop]
  | cons c u ih =>
    by_cases hc : c = COMMA ∨ c = RPAR
    · rw [strLoop_stop hc, List.dropWhile_cons_of_neg (by simpa [or_iff_not_imp_left] using hc)]
    · rw [strLoop_after hc, ih, List.dropWhile_cons_of_pos (by simpa using hc)]

theorem strLoop_open (fparm s : List UInt8) : strLoop true fparm s =
    (afterQuote s).bind fun u => strLoop false (fparm ++ stringBytes s) u := by
  fun_induction afterQuote s generalizing fparm with
  | case1 => rfl
  | case2 s => simp [strLoop_quote, stringBytes.eq_def]
  | case3 hq => simp [strLoop, hq]
  | case4 d s hq ih => simp [strLoop_escaped, stringBytes, ih, hq]
  | case5 c s hq hb ih =>
    have hbytes : stringBytes (c :: s) = c :: stringBytes s := by
      rw [stringBytes.eq_def]
      simp [hq, hb]
    simp [strLoop_plain hq hb, hbytes, ih]

/-- How a call ends: `u` is left, behind the bytes `p` of a number. -/
inductive Takes (p : List UInt8) : List UInt8 → Aparm → Prop
  /-- at the end of the list -/
  | last {t} (ht : Ended t) : Takes p t ⟨numberBytes p, .num, t⟩
  /-- behind a comma -/
  | next {q u} (hq : Separators q) (hu : Ended u ∨ Begins u) :
    Takes p (COMMA :: (q ++ u)) ⟨numberBytes p, .num, u⟩
  /-- behind a string -/
  | string {s v u} (hs : afterQuote s = some (v ++ u)) (hv : ∀ c ∈ v, c ≠ COMMA ∧ c ≠ RPAR)
    (hu : ∀ c ∈ u.head?, c = COMMA ∨ c = RPAR) :
    Takes p (QUOTE :: s) ⟨numberBytes p ++ stringBytes s, .str, u⟩
  /-- at a byte that nothing begins with -/
  | illegal {t u} (ht : t.head? ≠ some QUOTE) : Takes p t ⟨numberBytes p, .err, u⟩

/-- Behind a comma. -/
theorem numLoop_comma {fparm t : List UInt8} {a : Aparm} (h : numLoop true fparm t = some a) :
    ∃ q u, Separators q ∧ t = q ++ u ∧ a.fparm = fparm ∧
      (a.ptype = .err ∨ a = ⟨fparm, .num, u⟩ ∧ (Ended u ∨ Begins u)) := by
  obtain ⟨q, u, hq, hu, rfl, -, -⟩ := exists_span (fun c => c = SPACE ∨ c = COMMA) t
  refine ⟨q, u, hq, rfl, ?_⟩
  rw [numLoop_separators hq] at h
  cases u with
  | nil =>
    cases h
    exact ⟨rfl, .inr ⟨rfl, .inl trivial⟩⟩
  | cons c u =>
    obtain ⟨hspace, hcomma⟩ := not_or.1 (hu c rfl)
    simp only [numLoop, hcomma, if_false, if_true] at h
    split_ifs at h with hr hnum hquote
    · cases h
      exact ⟨rfl, .inr ⟨rfl, .inl hr⟩⟩
    · cases h
      exact ⟨rfl, .inr ⟨rfl, .inr (.inl hnum)⟩⟩
    · cases h
      exact ⟨rfl, .inr ⟨rfl, .inr (.inr hquote)⟩⟩
    · cases h
      exact ⟨rfl, .inl rfl⟩

theorem numLoop_comma_ne_none (fparm t : List UInt8) : numLoop true fparm t ≠ none := by
  induction t with
  | nil => simp [numLoop]
  | cons c t ih =>
    simp only [numLoop, if_true]
    split_ifs <;> simp [ih]

/-- Behind a quote. -/
theorem strLoop_quoted {fparm s : List UInt8} {a : Aparm} (h : strLoop true fparm s = some a) :
    ∃ v u, afterQuote s = some (v ++ u) ∧ (∀ c ∈ v, c ≠ COMMA ∧ c ≠ RPAR) ∧ (∀ c ∈ u.head?, c = COMMA ∨ c = RPAR) ∧
      a = ⟨fparm ++ stringBytes s, .str, u⟩ := by
  rw [strLoop_open] at h
  obtain ⟨w, hw, h⟩ := Option.bind_eq_some_iff.1 h
  obtain ⟨v, u, hv, hu, rfl, -, hdrop⟩ := exists_span (fun c => c ≠ COMMA ∧ c ≠ RPAR) w
  rw [strLoop_behind, hdrop] at h
  exact ⟨v, u, hw, hv, fun c hc => by have := hu c hc; tauto, (Option.some.inj h).symm⟩

theorem exists_takes {str : List UInt8} {a : Aparm} (h : usmartGetAparm str = some a) :
    ∃ p t, NumberText p ∧ str = p ++ t ∧ argument str = a.fparm ∧ Takes p t a := by
  obtain ⟨p, t, hp, ht, rfl, htake, hdrop⟩ := exists_span (fun c => InNumber c ∨ c = SPACE) str
  refine ⟨p, t, hp, rfl, ?_⟩
  rw [argument, htake, hdrop]
  rw [usmartGetAparm, numLoop_text hp, List.nil_append] at h
  cases t with
  | nil =>
    cases h
    exact ⟨by simp, .last trivial⟩
  | cons c t =>
    obtain ⟨hnum, hspace⟩ := not_or.1 (ht c rfl)
    rw [numLoop, if_neg hnum, if_neg Bool.false_ne_true] at h
    split_ifs at h with hr hcomma hquote
    · subst hr
      cases h
      exact ⟨by simp [show RPAR ≠ QUOTE by decide], .last rfl⟩
    · subst hcomma
      obtain ⟨q, u, hq, rfl, hfparm, htype⟩ := numLoop_comma h
      refine ⟨by simp [hfparm, show COMMA ≠ QUOTE by decide], ?_⟩
      rcases htype with htype | ⟨rfl, hu⟩
      · obtain ⟨fparm, ptype, rest⟩ := a
        cases htype
        cases hfparm
        exact .illegal (by simp [show COMMA ≠ QUOTE by decide])
      · exact .next hq hu
    · subst hquote
      obtain ⟨v, u, hs, hv, hu, rfl⟩ := strLoop_quoted h
      exact ⟨by simp, .string hs hv hu⟩
    · cases h
      exact ⟨by simp [hquote], .illegal (by simpa using hquote)⟩

/-- **The scanner goes on behind the NUL** in a string that is not closed. -/
theorem getAparm_eq_none_iff {str : List UInt8} : usmartGetAparm str = none ↔ OpenString str := by
  constructor
  · intro h
    obtain ⟨p, t, hp, ht, rfl, -, -⟩ := exists_span (fun c => InNumber c ∨ c = SPACE) str
    rw [usmartGetAparm, numLoop_text hp] at h
    cases t with
    | nil => cases h
    | cons c t =>
      obtain ⟨hnum, hspace⟩ := not_or.1 (ht c rfl)
      rw [numLoop, if_neg hnum, if_neg Bool.false_ne_true] at h
      split_ifs at h with hr hcomma hquote
      · exact absurd h (numLoop_comma_ne_none _ t)
      · subst hquote
        refine ⟨p, t, hp, ?_, rfl⟩
        rw [strLoop_open] at h
        rcases hs : afterQuote t with _ | u
        · rfl
        · rw [hs, Option.bind_some, strLoop_behind] at h
          cases h
  · rintro ⟨p, s, hp, hs, rfl⟩
    rw [usmartGetAparm, numLoop_text hp]
    show strLoop true _ s = none
    rw [strLoop_open, hs]
    rfl

theorem getAparm_behind_comma {p q u : List UInt8} (hp : NumberText p) (hq : Separators q) (hu : Begins u) :
    usmartGetAparm (p ++ COMMA :: (q ++ u)) = some ⟨numberBytes p, .num, u⟩ := by
  rw [usmartGetAparm, numLoop_text hp]
  show numLoop true (numberBytes p) (q ++ u) = _
  rw [numLoop_separators hq, numLoop_begins hu]

theorem getAparm_behind_string {p s v u : List UInt8} (hp : NumberText p) (hs : afterQuote s = some (v ++ COMMA :: u))
    (hv : ∀ c ∈ v, c ≠ COMMA ∧ c ≠ RPAR) :
    usmartGetAparm (p ++ QUOTE :: s) = some ⟨numberBytes p ++ stringBytes s, .str, COMMA :: u⟩ := by
  have hdrop : (v ++ COMMA :: u).dropWhile (fun c => c ≠ COMMA ∧ c ≠ RPAR) = COMMA :: u := by
    rw [List.dropWhile_append_of_pos (by simpa using hv)]
    exact List.dropWhile_cons_of_neg (by simp)
  rw [usmartGetAparm, numLoop_text hp]
  show strLoop true (numberBytes p) s = _
  rw [strLoop_open, hs, Option.bind_some, strLoop_behind, hdrop]

/-! ## The lists with a string that is not closed -/

/-- In a list of parameters, a string that is not closed stands behind `k` parameters. -/
inductive OpenAfter : ℕ → List UInt8 → Prop
  | here {str} (h : OpenString str) : OpenAfter 0 str
  | string {k p s v u} (hp : NumberText p) (hs : afterQuote s = some (v ++ COMMA :: u))
    (hv : ∀ c ∈ v, c ≠ COMMA ∧ c ≠ RPAR) (h : OpenAfter k (COMMA :: u)) : OpenAfter (k + 1) (p ++ QUOTE :: s)
  | number {k p q u n} (hp : NumberText p) (hn : usmartStr2num (numberBytes p) = .ok n) (hq : Separators q)
    (hu : Begins u) (h : OpenAfter k u) : OpenAfter (k + 1) (p ++ COMMA :: (q ++ u))
  | nothing {k p q u} (hp : Spaces p) (hq : Separators q) (hu : Begins u) (h : OpenAfter k u) :
    OpenAfter k (p ++ COMMA :: (q ++ u))

theorem Spaces.numberText {p : List UInt8} (hp : Spaces p) : NumberText p := fun c hc => .inr (hp c hc)

theorem Spaces.numberBytes {p : List UInt8} (hp : Spaces p) : numberBytes p = [] := by
  rw [Usmart.numberBytes, List.filter_eq_nil_iff.2, List.map_nil]
  intro c hc
  rw [hp c hc]
  decide

theorem NumberText.spaces {p : List UInt8} (hp : NumberText p) (h : numberBytes p = []) : Spaces p := by
  intro c hc
  rw [numberBytes, List.map_eq_nil_iff, List.filter_eq_nil_iff] at h
  exact (hp c hc).resolve_left (by simpa using h c hc)

theorem readList_passed {str : List UInt8} (h : usmartGetAparm str = none) : readList str = ⟨[], .passed⟩ := by
  rw [readList, readLoop, h]

theorem OpenAfter.reading {k : ℕ} {list : List UInt8} (h : OpenAfter k list) :
    (readList list).ending = .passed ∧ (readList list).params.length = k := by
  induction h with
  | here h =>
    rw [readList_passed (getAparm_eq_none_iff.2 h)]
    exact ⟨rfl, rfl⟩
  | string hp hs hv h ih =>
    rw [readList_eq (getAparm_behind_string hp hs hv) rfl]
    exact ⟨ih.1, congrArg Nat.succ ih.2⟩
  | @number k p q u n hp hn hq hu h ih =>
    have hne : numberBytes p ≠ [] := by
      intro hnil
      rw [hnil] at hn
      cases hn
    have hparam : (⟨numberBytes p, .num, u⟩ : Aparm).param = some (some (.num n)) := by
      rw [Aparm.param]
      dsimp only
      rw [if_neg hne, hn]
    rw [readList_eq (getAparm_behind_comma hp hq hu) hparam]
    exact ⟨ih.1, congrArg Nat.succ ih.2⟩
  | @nothing k p q u hp hq hu h ih =>
    have hparam : (⟨numberBytes p, .num, u⟩ : Aparm).param = some none := if_pos hp.numberBytes
    rw [readList_eq (getAparm_behind_comma hp.numberText hq hu) hparam]
    exact ih

theorem OpenAfter.not_ended {k : ℕ} {list : List UInt8} (h : OpenAfter k list) : ¬ Ended list := by
  intro hend
  have hclosed : readList list = ⟨[], .closed⟩ := readLoop_ended _ hend
  have hpassed := h.reading.1
  rw [hclosed] at hpassed
  cases hpassed

/-- One more parameter. -/
theorem OpenAfter.cons {k : ℕ} {str : List UInt8} {a : Aparm} {o : Option Param} (h : OpenAfter k a.rest)
    (ha : usmartGetAparm str = some a) (ho : a.param = some o) : OpenAfter (k + o.toList.length) str := by
  have hend := h.not_ended
  obtain ⟨p, t, hp, rfl, -, htakes⟩ := exists_takes ha
  cases htakes with
  | last ht => exact absurd ht hend
  | @next q u hq hu =>
    have hbegins := hu.resolve_left hend
    rw [Aparm.param] at ho
    dsimp only at ho
    split_ifs at ho with hnil
    · cases ho
      exact .nothing (hp.spaces hnil) hq hbegins h
    · rcases hn : usmartStr2num (numberBytes p) with e | n
      · rw [hn] at ho
        cases ho
      · rw [hn] at ho
        cases ho
        exact .number hp hn hq hbegins h
  | @string s v u hs hv hu =>
    cases ho
    cases u with
    | nil => exact absurd trivial hend
    | cons c u =>
      rcases hu c rfl with rfl | rfl
      · exact .string hp hs hv h
      · exact absurd rfl hend
  | illegal => cases ho

theorem openAfter_of_readList (list : List UInt8) : (readList list).ending = .passed →
    OpenAfter (readList list).params.length list := by
  induction list using readList_induction with
  | ended | illegal =>
    rintro ⟨⟩
  | passed str h => exact fun _ => .here (getAparm_eq_none_iff.1 h)
  | skip str a ha hp ih =>
    intro hpassed
    exact (ih hpassed).cons ha hp
  | param str a p ha hp ih =>
    intro hpassed
    exact (ih hpassed).cons ha hp

/-- **The lists that take the scanner behind the NUL.** -/
theorem openAfter_iff {k : ℕ} {list : List UInt8} : OpenAfter k list ↔
    (readList list).ending = .passed ∧ (readList list).params.length = k := by
  refine ⟨OpenAfter.reading, ?_⟩
  rintro ⟨hpassed, rfl⟩
  exact openAfter_of_readList list hpassed

/-! ## The calls -/

theorem readList_illegal {str : List UInt8} {a : Aparm} (ha : usmartGetAparm str = some a) (hp : a.param = none) :
    readList str = ⟨[], .illegal⟩ := by
  rw [readList, readLoop, ha]
  dsimp only
  rw [hp]

theorem aparmCalls_reading : ∀ {fuel n : ℕ} {list : List UInt8}, list.length < fuel → n ≤ maxParm →
    ((∀ str ∈ aparmCalls fuel n list, ¬ OpenString str) ↔
      ¬ ((readList list).ending = .passed ∧ n + (readList list).params.length ≤ maxParm))
  | 0, _, _, hfuel, _ => absurd hfuel (Nat.not_lt_zero _)
  | fuel + 1, n, list, hfuel, hn => by
    rw [aparmCalls, List.forall_mem_cons, ← getAparm_eq_none_iff]
    rcases ha : usmartGetAparm list with _ | a
    · rw [readList_passed ha]
      exact iff_of_false (fun h => h.1 rfl) fun h => h ⟨rfl, hn⟩
    rw [and_iff_right (Option.some_ne_none a)]
    rcases hp : a.param with _ | o
    · rw [readList_illegal ha hp]
      simp [hp]
    by_cases hend : Ended a.rest
    · have hclosed : readList a.rest = ⟨[], .closed⟩ := readLoop_ended _ hend
      rw [readList_eq ha hp, hclosed]
      cases o <;> simp [hp, hend, Reading.cons]
    have hlist : ¬ Ended list := by
      intro h
      rw [aparm_ended h] at ha
      cases ha
      exact hend h
    have hlt : a.rest.length < fuel := by
      have := rest_lt hlist ha hp
      omega
    rw [readList_eq ha hp]
    cases o with
    | none => simpa [hp, hend] using aparmCalls_reading hlt hn
    | some p =>
      have hlen : n + ((readList a.rest).cons p).params.length = n + 1 + (readList a.rest).params.length := by
        rw [Reading.cons, List.length_cons]
        omega
      show _ ↔ ¬ ((readList a.rest).ending = .passed ∧ n + ((readList a.rest).cons p).params.length ≤ maxParm)
      rw [hlen]
      by_cases hover : n + 1 > maxParm
      · have hmany : ¬ n + 1 + (readList a.rest).params.length ≤ maxParm := by omega
        simp [hp, hover, hmany]
      · simpa [hp, hend, hover] using aparmCalls_reading hlt (Nat.le_of_not_lt hover)

/-- **The calls of `usmart_get_fparam` stay before the NUL** if and only if none of the first eleven
parameters is a string that is not closed. -/
theorem aparmCalls_iff (list : List UInt8) :
    (∀ str ∈ aparmCalls (list.length + 1) 0 list, ¬ OpenString str) ↔ ∀ k ≤ maxParm, ¬ OpenAfter k list := by
  rw [aparmCalls_reading (Nat.lt_succ_self _) (Nat.zero_le _), Nat.zero_add]
  simp only [openAfter_iff]
  constructor
  · rintro h k hk ⟨hpassed, rfl⟩
    exact h ⟨hpassed, hk⟩
  · rintro h ⟨hpassed, hk⟩
    exact h _ hk ⟨hpassed, rfl⟩

/-- The calls are made inside of the list. -/
theorem aparmCalls_suffix : ∀ {fuel n : ℕ} {list str : List UInt8}, str ∈ aparmCalls fuel n list → str <:+ list
  | 0, _, _, _, h => absurd h List.not_mem_nil
  | fuel + 1, n, list, str, h => by
    rw [aparmCalls] at h
    rcases List.mem_cons.1 h with rfl | h
    · exact List.suffix_rfl
    rcases ha : usmartGetAparm list with _ | a
    · simp [ha] at h
    have hrest : ∀ n, str ∈ aparmCalls fuel n a.rest → str <:+ list := fun n h =>
      (aparmCalls_suffix h).trans (numLoop_suffix ha)
    rw [ha] at h
    dsimp only at h
    rcases hp : a.param with _ | o
    · simp [hp] at h
    rw [hp] at h
    cases o <;> dsimp only at h <;> split_ifs at h
    · exact absurd h List.not_mem_nil
    · exact hrest _ h
    · exact absurd h List.not_mem_nil
    · exact hrest _ h

theorem aparmCalls_line {fuel n : ℕ} {list str : List UInt8} (h : str ∈ aparmCalls fuel n list)
    (name : List UInt8) : str <:+ name ++ LPAR :: list :=
  (aparmCalls_suffix h).trans ((List.suffix_cons LPAR list).trans (List.suffix_append name _))

/-- **The loop of `usmart_get_fparam` terminates** under the same condition. -/
theorem fparamLoop_isSome (d : Dev) {list : List UInt8} (h : ∀ k ≤ maxParm, ¬ OpenAfter k list) :
    (d.fparamLoop (list.length + 1) 0 list).isSome := by
  have hread : readLoop (list.length + 1) list = readList list := rfl
  rw [fparamLoop_eq _ d list (Nat.zero_le _), hread, Reading.stored, Nat.zero_add]
  split_ifs with hcount
  · have hpassed : (readList list).ending ≠ .passed := fun hpassed =>
      h _ hcount (openAfter_iff.2 ⟨hpassed, rfl⟩)
    rcases hend : (readList list).ending with _ | _ | _ | _
    · rfl
    · rfl
    · rfl
    · exact absurd hend hpassed
  · rfl

/-! ## The system commands -/

theorem cmdnameLoop_eq {maxlen : ℕ} {str : List UInt8} : ∀ {cmdname : List UInt8}, cmdname.length < maxlen →
    cmdnameLoop maxlen cmdname str =
      if (cmdname ++ str.takeWhile (· ≠ SPACE)).length < maxlen then some (cmdname ++ str.takeWhile (· ≠ SPACE))
      else none := by
  induction str with
  | nil =>
    intro cmdname h
    simp [cmdnameLoop, h]
  | cons c str ih =>
    intro cmdname h
    by_cases hc : c = SPACE
    · simp [cmdnameLoop, hc, h]
    by_cases hover : (cmdname ++ [c]).length ≥ maxlen
    · have hnot : ¬ (cmdname ++ (c :: str).takeWhile (· ≠ SPACE)).length < maxlen := by
        simp only [List.length_append, List.length_singleton] at hover
        simp [hc]
        omega
      rw [cmdnameLoop, if_neg hc, if_pos hover, if_neg hnot]
    · rw [cmdnameLoop, if_neg hc, if_neg hover, ih (Nat.lt_of_not_le hover)]
      simp [hc]

/-- The line is a command with the argument `arg`. -/
def SysArgument (line arg : List UInt8) : Prop :=
  ∃ cmd ∈ [ascii "hex", ascii "dec", ascii "runtime"], line = cmd ++ arg ∧ ∀ c ∈ arg.head?, c = SPACE

theorem sysCmdTab_getElem : ∀ i ∈ [4, 5, 6], ∃ h : i < sysCmdTab.length,
    sysCmdTab[i] ∈ [ascii "hex", ascii "dec", ascii "runtime"] := by decide

theorem sysCmdTab_argument (sfname : List UInt8) :
    sysCmdTab.findIdx (· = sfname) ∈ [4, 5, 6] ↔ sfname ∈ [ascii "hex", ascii "dec", ascii "runtime"] := by
  constructor
  · intro h
    obtain ⟨hlt, hmem⟩ := sysCmdTab_getElem _ h
    have hfound := @List.findIdx_getElem _ (fun c => decide (c = sfname)) sysCmdTab hlt
    rwa [of_decide_eq_true hfound] at hmem
  · intro h
    rcases List.mem_cons.1 h with rfl | h
    · decide
    · rcases List.mem_pair.1 h with rfl | rfl <;> decide

theorem sysCmd_plain {cmd : List UInt8} (h : cmd ∈ [ascii "hex", ascii "dec", ascii "runtime"]) :
    cmd.length < maxFnameLen ∧ ∀ c ∈ cmd, c ≠ SPACE := by
  have htest : ∀ cmd ∈ [ascii "hex", ascii "dec", ascii "runtime"],
      cmd.length < maxFnameLen ∧ cmd.all (fun c => decide (c ≠ SPACE)) = true := by decide
  exact ⟨(htest cmd h).1, forall_mem_of_all (htest cmd h).2⟩

theorem sysCall_iff {line arg : List UInt8} : SysCall line arg ↔ SysArgument line arg := by
  simp only [SysCall, SysArgument, sysCmdTab_argument, usmartGetCmdname,
    cmdnameLoop_eq (show ([] : List UInt8).length < maxFnameLen by decide), List.nil_append]
  constructor
  · rintro ⟨sfname, hname, hcmd, rfl⟩
    obtain ⟨p, t, -, ht, rfl, htake, -⟩ := exists_span (· ≠ SPACE) line
    split_ifs at hname with hlen
    obtain rfl : p = sfname := htake.symm.trans (Option.some.inj hname)
    rw [List.drop_left]
    exact ⟨p, hcmd, rfl, fun c hc => not_not.1 (ht c hc)⟩
  · rintro ⟨cmd, hcmd, rfl, harg⟩
    obtain ⟨hlen, hplain⟩ := sysCmd_plain hcmd
    have hnil : arg.takeWhile (· ≠ SPACE) = [] := by
      cases arg with
      | nil => rfl
      | cons c arg => exact List.takeWhile_cons_of_neg (by simpa using harg c rfl)
    have htake : (cmd ++ arg).takeWhile (· ≠ SPACE) = cmd := by
      rw [List.takeWhile_append_of_pos (by simpa using hplain), hnil, List.append_nil]
    rw [htake, if_pos hlen]
    exact ⟨cmd, rfl, hcmd, List.drop_left.symm⟩

theorem sysConvert_eq_none_iff {t sptype : SpType} {str : List UInt8} :
    sysConvert t sptype str = none ↔ usmartGetAparm str = none := by
  rw [sysConvert]
  rcases usmartGetAparm str with _ | a
  · simp
  · dsimp only
    split_ifs
    · rcases usmartStr2num a.fparm with e | res
      · dsimp only
        split_ifs <;> simp
      · simp
    · simp

theorem sysRuntime_eq_none_iff {sptype : SpType} {str : List UInt8} :
    sysRuntime sptype str = none ↔ usmartGetAparm str = none := by
  rw [sysRuntime]
  rcases usmartGetAparm str with _ | a
  · simp
  · dsimp only
    split_ifs
    · rcases usmartStr2num a.fparm with e | res <;> simp
    · simp

/-- **A system command takes the scanner behind the NUL** if and only if its argument is not closed. -/
theorem sysCmdExe_eq_none_iff (sptype : SpType) (line : List UInt8) :
    usmartSysCmdExe sptype line = none ↔ ∃ arg, SysCall line arg ∧ OpenString arg := by
  simp only [SysCall, ← getAparm_eq_none_iff]
  rw [usmartSysCmdExe]
  rcases hname : usmartGetCmdname line maxFnameLen with _ | sfname
  · simp
  · dsimp only
    split
    all_goals rename_i hidx
    all_goals simp [hidx, sysConvert_eq_none_iff, sysRuntime_eq_none_iff]
    rintro (h | h | h) <;> contradiction

/-! ## Bounds -/

/-- A call at `str` stays before the NUL, its bytes and their NUL fit into `cap` bytes, and its offset is in the
string or at its NUL. -/
def ScansInside (cap : ℕ) (str : List UInt8) : Prop :=
  ∃ r, usmartGetAparmRet str = some r ∧ r.fparm.length + 1 ≤ cap ∧ r.i.toNat ≤ str.length

/-- Every call for this line is in bounds, and the loop of `usmart_get_fparam` terminates. -/
structure ScansInBounds (line : List UInt8) : Prop where
  fparam : ∀ list, findList line = some (some list) →
    (∀ str ∈ aparmCalls (list.length + 1) 0 list, ScansInside (parmLen + 1) str) ∧
      ∀ d : Dev, ∃ fuel, (d.fparamLoop fuel 0 list).isSome
  sysCmd : ∀ arg, SysCall line arg → ScansInside maxFnameLen arg

/-- None of the first eleven parameters is a string that is not closed, and the argument of a system command
is none and is not too long. -/
structure Closed (line : List UInt8) : Prop where
  list : ∀ name list, LPAR ∉ name → line = name ++ LPAR :: list → ∀ k ≤ maxParm, ¬ OpenAfter k list
  argument : ∀ arg, SysArgument line arg → ¬ OpenString arg ∧ (argument arg).length < maxFnameLen

theorem scansInside_iff {cap : ℕ} {str : List UInt8} (hlen : str.length < 256) :
    ScansInside cap str ↔ ¬ OpenString str ∧ (argument str).length + 1 ≤ cap := by
  rw [ScansInside, getAparmRet_eq, ← getAparm_eq_none_iff]
  rcases ha : usmartGetAparm str with _ | a
  · simp
  obtain ⟨-, -, -, -, hargument, -⟩ := exists_takes ha
  have hoffset : (a.ret 0 str).i.toNat ≤ str.length := by
    rw [Aparm.ret, UInt8.zero_add, UInt8.toNat_ofNat_of_lt' (Nat.lt_of_le_of_lt (Nat.sub_le _ _) hlen)]
    exact Nat.sub_le _ _
  rw [hargument]
  constructor
  · rintro ⟨r, hr, hcap, -⟩
    cases hr
    exact ⟨Option.some_ne_none a, hcap⟩
  · rintro ⟨-, hcap⟩
    exact ⟨_, rfl, hcap, hoffset⟩

/-- The argument of a call has at most as many bytes as the string, if it ends. -/
theorem argument_length_le {str : List UInt8} (h : ¬ OpenString str) : (argument str).length ≤ str.length := by
  rcases ha : usmartGetAparm str with _ | a
  · exact absurd (getAparm_eq_none_iff.1 ha) h
  · obtain ⟨-, -, -, -, hargument, -⟩ := exists_takes ha
    have htotal := (numLoop_bounded ha).total
    rw [hargument]
    simp only [List.length_nil] at htotal
    omega

/-- **The scanner stays in bounds** if and only if the strings of the line are closed and a system command
has a short argument. -/
theorem scansInBounds_iff {line : List UInt8} (hlen : line.length < usartRecLen) :
    ScansInBounds line ↔ Closed line := by
  have hlong : ∀ {str : List UInt8}, str <:+ line → str.length < usartRecLen := fun h =>
    Nat.lt_of_le_of_lt h.length_le hlen
  have hsmall : ∀ {str : List UInt8}, str <:+ line → str.length < 256 := fun h =>
    Nat.lt_trans (hlong h) (by decide)
  have hsys : ∀ {arg}, SysArgument line arg → arg <:+ line := fun ⟨cmd, _, h, _⟩ => ⟨cmd, h.symm⟩
  constructor
  · intro h
    refine ⟨?_, fun arg harg => ?_⟩
    · rintro name list hname rfl
      rw [← aparmCalls_iff]
      intro str hstr
      have hsuffix := aparmCalls_line hstr name
      exact ((scansInside_iff (hsmall hsuffix)).1 ((h.fparam list (findList_eq list hname)).1 str hstr)).1
    · exact (scansInside_iff (hsmall (hsys harg))).1 (h.sysCmd arg (sysCall_iff.2 harg))
  · intro h
    refine ⟨fun list hlist => ?_, fun arg harg => ?_⟩
    · obtain ⟨name, hname, rfl⟩ := findList_some hlist
      have hopen := h.list name list hname rfl
      refine ⟨fun str hstr => ?_, fun d => ⟨_, fparamLoop_isSome d hopen⟩⟩
      have hsuffix := aparmCalls_line hstr name
      have hclosed := (aparmCalls_iff list).2 hopen str hstr
      have hle := argument_length_le hclosed
      have hlt := hlong hsuffix
      refine (scansInside_iff (hsmall hsuffix)).2 ⟨hclosed, ?_⟩
      simp only [usartRecLen, parmLen] at hlt ⊢
      omega
    · have harg' := sysCall_iff.1 harg
      exact (scansInside_iff (hsmall (hsys harg'))).2 (h.argument arg harg')

/-- A line with a number that is closed. -/
theorem closed_read : Closed (ascii "read_addr(0X20000000)") := by
  refine ⟨fun name list hname heq k _ hopen => ?_, ?_⟩
  · have hfind : findList (ascii "read_addr(0X20000000)") = some (some (ascii "0X20000000)")) := by decide +kernel
    rw [heq, findList_eq list hname] at hfind
    obtain rfl := Option.some.inj (Option.some.inj hfind)
    have hread : (readList (ascii "0X20000000)")).ending = .closed := by decide +kernel
    rw [hopen.reading.1] at hread
    cases hread
  · rintro arg ⟨cmd, hcmd, heq, -⟩
    rcases List.mem_cons.1 hcmd with rfl | hcmd
    · exact absurd (Option.some.inj (congrArg List.head? heq)) (by decide)
    rcases List.mem_pair.1 hcmd with rfl | rfl
    · exact absurd (Option.some.inj (congrArg List.head? heq)) (by decide)
    · exact absurd (Option.some.inj (congrArg (List.head? ∘ List.tail) heq)) (by decide)

theorem scansInBounds_read : (ascii "read_addr(0X20000000)").length < usartRecLen ∧
    ScansInBounds (ascii "read_addr(0X20000000)") :=
  ⟨by decide, (scansInBounds_iff (by decide)).2 closed_read⟩

/-- A string that is not closed, and an argument of thirty digits. -/
theorem not_scansInBounds : ¬ ScansInBounds (ascii "read_addr(\"\\\")") ∧
    ¬ ScansInBounds (ascii "hex " ++ List.replicate 30 0x31) := by
  constructor
  · intro h
    obtain ⟨hcalls, -⟩ := h.fparam (ascii "\"\\\")") (by decide +kernel)
    obtain ⟨r, hr, -⟩ := hcalls _ List.mem_cons_self
    have hnone : usmartGetAparmRet (ascii "\"\\\")") = none := by decide +kernel
    rw [hnone] at hr
    cases hr
  · intro h
    obtain ⟨r, hr, hcap, -⟩ := h.sysCmd (SPACE :: List.replicate 30 0x31) ⟨ascii "hex", by decide +kernel⟩
    have hsome : usmartGetAparmRet (SPACE :: List.replicate 30 0x31) = some ⟨List.replicate 30 0x31, .num, 31⟩ := by
      decide +kernel
    rw [hsome] at hr
    cases hr
    exact absurd hcap (by decide)

end DataRecorder.Usmart
