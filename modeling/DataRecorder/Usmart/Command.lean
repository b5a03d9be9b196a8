/-
  The recognition of a command (`usmart_cmd_rec` in `USMART/usmart.c`, the table of
  `USMART/usmart_config.c`).

  The parameters are counted by one scanner and stored by another.  The first takes
  every comma for a separator, and its quote flag knows no backslash.

  * `aparm_parts`, `readList_length`: the second scanner counts the parts between the
    commas outside of the strings;
  * `fullyParsed_iff`: where each parenthesis finds the flag right, and no parameter
    begins in nested parentheses, the two agree if and only if no comma stands in a
    string.
-/
import DataRecorder.Usmart.Arguments
import DataRecorder.Usmart.Fname

namespace DataRecorder.Usmart

open Base

/-! ## The code -/

/-- The names of `usmart_nametab`. -/
def usmartNametab : List (List UInt8) :=
  [ascii "u32 read_addr(u32 addr)", ascii "void write_addr(u32 addr,u32 val)",
    ascii "u8 RTC_Set_Time(u8 hour,u8 min,u8 sec,u8 ampm)",
    ascii "u8 RTC_Set_Date(u8 year,u8 month,u8 date,u8 week)",
    ascii "void Amplitude_setting(u8 temp_up, u8 temp_low, u8 humi_up, u8 humi_low);"]

/-- The loop of `usmart_cmd_rec`: the id of the function, or why there is none. -/
def findFun (r : Fname) (i : ℕ) : List (List UInt8) → Except Status ℕ
  | [] => .error .noFuncFind
  | name :: names =>
    let s := usmartGetFname name
    if s.sta ≠ .ok then .error s.sta
    else if s.fname = r.fname then if s.pnum > r.pnum then .error .parmErr else .ok i
    else findFun r (i + 1) names

def usmartCmdRec (d : Dev) (str : List UInt8) : Option (Status × Dev) :=
  let r := usmartGetFname str
  if r.sta ≠ .ok then some (r.sta, d)
  else match findFun r 0 usmartNametab with
    | .error sta => some (sta, d)
    | .ok id =>
      match usmartGetFparam { d with id := id } str with
      | none => none
      | some (sta, d, n) => if sta ≠ .ok then some (sta, d) else some (.ok, { d with pnum := n })

/-- The number of the parameters in the prototype of the selected function. -/
def Dev.declared (d : Dev) : ℕ := (usmartGetFname (usmartNametab.getD d.id [])).pnum

/-! ## The second scanner counts parts -/

section
variable {p : Place} {started : Bool} {c : UInt8} {l : List UInt8}

theorem parts_end (all : Bool) (h : Ended l) (hp : p.Out) : parts all p started l = 0 := by
  cases l with
  | nil => rfl
  | cons c l => rw [parts, if_pos ⟨.inl h, hp⟩]

theorem parts_comma (hp : p.Out) : parts false p started (COMMA :: l) = parts false .outside false l := by
  rw [parts, if_neg fun h => absurd h.1 (by decide), if_pos ⟨rfl, .inr hp⟩]
  rcases hp with rfl | rfl <;> rfl

/-- In a part that has begun. -/
theorem parts_started (hr : ¬ (c = RPAR ∧ p.Out)) (hcomma : ¬ (c = COMMA ∧ p.Out)) :
    parts false p true (c :: l) = parts false (p.next c) true l := by
  rw [parts, if_neg (by simpa using hr), if_neg (by simpa using hcomma), if_pos (.inl rfl)]

/-- In a string. -/
theorem parts_within (hp : ¬ p.Out) : parts false p true (c :: l) = parts false (p.next c) true l :=
  parts_started (fun h => hp h.2) fun h => hp h.2

end

theorem not_out_string : ¬ Place.string.Out := by decide

theorem not_out_escaped : ¬ Place.escaped.Out := by decide

/-- A string is one part with what follows it. -/
theorem strLoop_parts {string : Bool} {fparm str : List UInt8} {a : Aparm} (h : strLoop string fparm str = some a) :
    parts false (if string then .string else .after) true str = parts false .outside false a.rest := by
  fun_induction strLoop string fparm str with
  | case1 | case4 => cases h
  | case2 =>
    cases h
    rfl
  | case3 fparm str ih =>
    rw [if_pos rfl, parts_within not_out_string]
    exact ih h
  | case5 fparm d str _ ih =>
    rw [if_pos rfl, parts_within not_out_string]
    show parts false .escaped true (d :: str) = _
    rw [parts_within not_out_escaped]
    exact ih h
  | case6 fparm d str hq hb ih =>
    rw [if_pos rfl, parts_within not_out_string, Place.next, if_neg hb, if_neg hq]
    exact ih h
  | case7 string fparm c str hstring hstop =>
    cases h
    rw [if_neg hstring]
    rcases hstop with rfl | rfl
    · rw [parts_comma (.inr rfl), parts_comma (.inl rfl)]
    · have hend : Ended (RPAR :: str) := rfl
      rw [parts_end false hend (.inr rfl), parts_end false hend (.inl rfl)]
  | case8 string fparm c str hstring hstop ih =>
    rw [Bool.not_eq_true] at hstring
    subst hstring
    obtain ⟨hcomma, hr⟩ := not_or.1 hstop
    rw [if_neg Bool.false_ne_true, parts_started (fun h' => hr h'.1) (fun h' => hcomma h'.1), Place.next,
      if_neg hcomma]
    exact ih h

theorem parts_space {all started : Bool} {l : List UInt8} :
    parts all .outside started (SPACE :: l) = parts all .outside started l := by
  have hr : ¬ ((SPACE = RPAR ∨ SPACE = LPAR ∧ all = true) ∧ Place.outside.Out) := by simp [SPACE, RPAR, LPAR]
  rw [parts, if_neg hr, if_neg fun h => absurd h.1 (by decide), if_pos (.inr (.inl rfl))]
  rfl

/-- The first byte of a part. -/
theorem parts_begin {c : UInt8} {l : List UInt8} (hc : InNumber c ∨ c = QUOTE) :
    parts false .outside false (c :: l) = parts false (Place.outside.next c) true l + 1 := by
  have hne : ∀ d, ¬ (InNumber d ∨ d = QUOTE) → c ≠ d := by
    rintro d hd rfl
    exact hd hc
  rw [parts, if_neg fun h => h.1.elim (hne RPAR (by decide)) fun h' => absurd h'.2 Bool.false_ne_true,
    if_neg fun h => hne COMMA (by decide) h.1, if_neg]
  rintro (h | h | h)
  · cases h
  · exact hne SPACE (by decide) h
  · exact hne LPAR (by decide) h

/-- A byte of a part, counted if it is the first one. -/
theorem parts_byte {c : UInt8} {l fparm : List UInt8} (hc : InNumber c ∨ c = QUOTE) :
    parts false .outside (decide (fparm ≠ [])) (c :: l) + (if fparm = [] then 0 else 1) =
      parts false (Place.outside.next c) true l + 1 := by
  by_cases hempty : fparm = []
  · rw [if_pos hempty, decide_eq_false (not_not.2 hempty), parts_begin hc]
  · have hr : c ≠ RPAR := by
      rintro rfl
      exact absurd hc (by decide)
    have hcomma : c ≠ COMMA := by
      rintro rfl
      exact absurd hc (by decide)
    rw [if_neg hempty, decide_eq_true hempty, parts_started (fun h => hr h.1) (fun h => hcomma h.1)]

/-- Behind a comma the next part is looked for. -/
theorem numLoop_parts_comma {fparm str : List UInt8} {a : Aparm} (h : numLoop true fparm str = some a)
    (ha : a.ptype ≠ .err) :
    a.ptype = .num ∧ a.fparm = fparm ∧ parts false .outside false str = parts false .outside false a.rest := by
  induction str with
  | nil =>
    cases h
    exact ⟨rfl, rfl, rfl⟩
  | cons c str ih =>
    simp only [numLoop, if_true] at h
    split_ifs at h with hr hcomma hnum hq hspace
    · cases h
      exact ⟨rfl, rfl, rfl⟩
    · rw [hcomma, parts_comma (.inl rfl)]
      exact ih h
    · cases h
      exact ⟨rfl, rfl, rfl⟩
    · cases h
      exact ⟨rfl, rfl, rfl⟩
    · cases h
      exact absurd rfl ha
    · rw [not_not.1 hspace, parts_space]
      exact ih h

/-- A parameter is one part; with `fparm` not empty it has begun before. -/
theorem numLoop_parts {fparm str : List UInt8} {a : Aparm} (h : numLoop false fparm str = some a)
    (ha : a.ptype ≠ .err) :
    parts false .outside (decide (fparm ≠ [])) str + (if fparm = [] then 0 else 1) =
      parts false .outside false a.rest + (if a.ptype = .num ∧ a.fparm = [] then 0 else 1) := by
  induction str generalizing fparm with
  | nil =>
    cases h
    simp [parts]
  | cons c str ih =>
    simp only [numLoop, Bool.false_eq_true, if_false] at h
    split_ifs at h with hr hcomma hnum hq hspace
    · cases h
      have hend : Ended (c :: str) := hr
      rw [parts_end false hend (.inl rfl), parts_end false hend (.inl rfl)]
      simp
    · obtain ⟨htype, hfparm, hparts⟩ := numLoop_parts_comma h ha
      rw [hcomma, parts_comma (.inl rfl), hparts, htype, hfparm]
      simp
    · have hnext := ih h
      rw [decide_eq_true (List.append_ne_nil_of_right_ne_nil _ (List.cons_ne_nil _ _)),
        if_neg (List.append_ne_nil_of_right_ne_nil _ (List.cons_ne_nil _ _))] at hnext
      rw [parts_byte (.inl hnum), Place.next, if_neg (hnum.ne (by decide)), hnext]
    · rw [parts_byte (.inr hq), Place.next, if_pos hq, (strLoop_bounded h).1]
      exact congrArg (· + 1) (strLoop_parts h)
    · cases h
      exact absurd rfl ha
    · rw [not_not.1 hspace, parts_space]
      exact ih h

theorem Aparm.param_eq {a : Aparm} {o : Option Param} (h : a.param = some o) :
    o = none ↔ a.ptype = .num ∧ a.fparm = [] := by
  rw [param] at h
  rcases htype : a.ptype with _ | _ | _
  · rw [htype] at h
    dsimp only at h
    split_ifs at h with hempty
    · exact iff_of_true (Option.some.inj h).symm ⟨rfl, hempty⟩
    · rcases hnum : usmartStr2num a.fparm with e | v
      · rw [hnum] at h
        cases h
      · rw [hnum] at h
        rw [← Option.some.inj h]
        exact iff_of_false (by simp) fun h' => hempty h'.2
  · rw [htype] at h
    rw [← Option.some.inj h]
    exact iff_of_false (by simp) fun h' => by cases h'.1
  · rw [htype] at h
    cases h

/-- **The parameters that are read** are the parts between the commas outside of the strings. -/
theorem readList_length (list : List UInt8) (h : (readList list).ending = .closed) :
    (readList list).params.length = parts false .outside false list := by
  induction list using readList_induction with
  | ended str hend => exact (parts_end false hend (.inl rfl)).symm
  | passed str ha => cases h
  | illegal str a ha hp => cases h
  | skip str a ha hp ih =>
    have hparts := numLoop_parts ha (Aparm.ne_err hp)
    rw [if_pos ((Aparm.param_eq hp).1 rfl), if_pos rfl] at hparts
    rw [ih h]
    exact hparts.symm
  | param str a p ha hp ih =>
    have hparts := numLoop_parts ha (Aparm.ne_err hp)
    rw [if_neg (mt (Aparm.param_eq hp).2 (by simp)), if_pos rfl] at hparts
    rw [Reading.cons, List.length_cons, ih h]
    exact hparts.symm

/-! ## Commas in strings -/

theorem Place.next_out {p : Place} {c : UInt8} (hc : c = COMMA ∨ c = SPACE ∨ c = LPAR) :
    (p.next c).Out ↔ p.Out := by
  cases p with
  | outside | string | escaped => rcases hc with rfl | rfl | rfl <;> decide
  | after => rcases hc with rfl | rfl | rfl <;> decide

theorem Place.next_outside {p : Place} {c : UInt8} (hc : c = SPACE ∨ c = LPAR) (hp : p = .outside) :
    p.next c = .outside := by
  rcases hc with rfl | rfl <;> rw [hp] <;> rfl

theorem parts_close (all : Bool) {p : Place} {started : Bool} {l : List UInt8} (hp : p.Out) :
    parts all p started (RPAR :: l) = 0 := by
  rw [parts, if_pos ⟨.inl rfl, hp⟩]

/-- A `(` behind a string. -/
theorem parts_open {l : List UInt8} :
    parts false .after true (LPAR :: l) = parts false .after true l ∧ parts true .after true (LPAR :: l) = 0 := by
  constructor
  · rw [parts_started (fun h => absurd h.1 (by decide)) fun h => absurd h.1 (by decide)]
    rfl
  · rw [parts, if_pos ⟨.inr ⟨rfl, rfl⟩, .inr rfl⟩]

/-- A comma in a string makes one part more, the closing quote at the latest. -/
theorem parts_le {l : List UInt8} : ∀ {p : Place} {odd : Bool}, RightParens p odd l →
    (∀ started, (p = .outside ∨ started = true) → parts false p started l ≤ parts true p started l ∧
      (parts false p started l = parts true p started l ↔ CommasOut p l)) ∧
    (¬ p.Out → parts false p true l + 1 ≤ parts true p false l) := by
  induction l with
  | nil => exact fun h => h.elim
  | cons c l ih =>
    intro p odd h
    rw [RightParens] at h
    by_cases hend : (c = RPAR ∨ c = LPAR) ∧ p.Out
    · refine ⟨fun started hstarted => ?_, fun hout => absurd hend.2 hout⟩
      rw [if_pos hend] at h
      have hzero : parts false p started (c :: l) = 0 ∧ parts true p started (c :: l) = 0 := by
        rcases hend.1 with rfl | rfl
        · exact ⟨parts_close false hend.2, parts_close true hend.2⟩
        · obtain ⟨rfl, -, hnone⟩ := h.2 rfl
          obtain rfl := hstarted.resolve_left (by simp)
          exact ⟨parts_open.1.trans hnone, parts_open.2⟩
      rw [hzero.1, hzero.2]
      exact ⟨le_rfl, iff_of_true rfl (.inl hend)⟩
    rw [if_neg hend] at h
    obtain ⟨hle, hstring⟩ := ih h.2
    have hnot : ∀ all, ¬ ((c = RPAR ∨ c = LPAR ∧ all = true) ∧ p.Out) :=
      fun _ h' => hend ⟨h'.1.imp_right And.left, h'.2⟩
    refine ⟨fun started hstarted => ?_, fun hout => ?_⟩
    · rw [parts, parts, if_neg (hnot _), if_neg (hnot _), CommasOut, or_iff_right hend]
      by_cases hcomma : c = COMMA
      · by_cases hout : p.Out
        · have hnext : p.next c = .outside := by
            rw [hcomma]
            rcases hout with rfl | rfl <;> rfl
          rw [if_pos ⟨hcomma, .inr hout⟩, if_pos ⟨hcomma, .inl rfl⟩, and_iff_right fun _ => hout]
          exact hle false (.inl hnext)
        · have hlt := hstring (mt (Place.next_out (.inl hcomma)).1 hout)
          have hstarted' := hstarted.resolve_left fun hp => hout (.inl hp)
          rw [if_neg (by simp [hout]), if_pos (.inl hstarted'), if_pos ⟨hcomma, .inl rfl⟩, hstarted']
          exact ⟨Nat.le_of_succ_le hlt, iff_of_false (Nat.ne_of_lt hlt) fun h' => hout (h'.1 hcomma)⟩
      · have hsep : ∀ all : Bool, ¬ (c = COMMA ∧ (all = true ∨ p.Out)) := fun _ h' => hcomma h'.1
        rw [if_neg (hsep false), if_neg (hsep true), and_iff_right fun h' => absurd h' hcomma]
        by_cases hblank : c = SPACE ∨ c = LPAR
        · rw [if_pos (.inr hblank), if_pos (.inr hblank)]
          exact hle started (hstarted.imp_left (Place.next_outside hblank))
        by_cases hs : started = true
        · rw [if_pos (.inl hs), if_pos (.inl hs)]
          exact hle started (.inr hs)
        · have hbegins : ¬ (started = true ∨ c = SPACE ∨ c = LPAR) := not_or.2 ⟨hs, hblank⟩
          obtain ⟨hle', hiff⟩ := hle true (.inr rfl)
          rw [if_neg hbegins, if_neg hbegins, Nat.add_right_cancel_iff]
          exact ⟨Nat.add_le_add_right hle' 1, hiff⟩
    · have hsep : ¬ (c = COMMA ∧ (false = true ∨ p.Out)) := fun h' => hout (h'.2.resolve_left Bool.false_ne_true)
      rw [parts, parts, if_neg (hnot _), if_neg (hnot _), if_neg hsep, if_pos (.inl rfl)]
      by_cases hcomma : c = COMMA
      · rw [if_pos ⟨hcomma, .inl rfl⟩]
        exact hstring (mt (Place.next_out (.inl hcomma)).1 hout)
      rw [if_neg fun h' => hcomma h'.1]
      by_cases hblank : c = SPACE ∨ c = LPAR
      · rw [if_pos (.inr hblank)]
        exact hstring (mt (Place.next_out (.inr hblank)).1 hout)
      · rw [if_neg (not_or.2 ⟨Bool.false_ne_true, hblank⟩)]
        exact Nat.add_le_add_right (hle true (.inr rfl)).1 1

/-! ## Accepted lines -/

theorem fparam_ok {d d' : Dev} {line : List UInt8} {n : ℕ} (h : usmartGetFparam d line = some (.ok, d', n)) :
    (readParams line).ending = .closed ∧ (readParams line).params.length ≤ maxParm ∧
      d' = d.clear.storeAll 0 (readParams line).params ∧ n = (readParams line).params.length := by
  rw [fparam_eq, Reading.stored, Nat.zero_add] at h
  split_ifs at h with hcount
  · rcases hend : (readParams line).ending with _ | _ | _ | _ <;> rw [hend] at h <;> cases h
    exact ⟨rfl, hcount, rfl, rfl⟩
  · cases h

theorem readParams_closed {line : List UInt8} (h : (readParams line).ending = .closed) :
    ∃ list, findList line = some (some list) ∧ readParams line = readList list := by
  rcases hlist : findList line with _ | _ | list
  · simp only [readParams, hlist, reduceCtorEq] at h
  · simp only [readParams, hlist, reduceCtorEq] at h
  · exact ⟨list, rfl, by rw [readParams, hlist]⟩

theorem Dev.storeAll_id (ps : List Param) : ∀ (d : Dev) (n : ℕ), (d.storeAll n ps).id = d.id := by
  induction ps with
  | nil => exact fun _ _ => rfl
  | cons p ps ih => exact fun d n => ih _ _

theorem findFun_ok {r : Fname} {id : ℕ} : ∀ {names : List (List UInt8)} {i : ℕ}, findFun r i names = .ok id →
    ∃ k, id = i + k ∧ ∃ h : k < names.length, (usmartGetFname names[k]).fname = r.fname ∧
      (usmartGetFname names[k]).pnum ≤ r.pnum
  | [], _, h => by cases h
  | name :: names, i, h => by
    rw [findFun] at h
    split_ifs at h with hsta hname hnum
    · cases h
      exact ⟨0, rfl, Nat.succ_pos _, hname, Nat.le_of_not_lt hnum⟩
    · obtain ⟨k, hid, hk, hfun⟩ := findFun_ok h
      exact ⟨k + 1, by omega, Nat.succ_lt_succ hk, hfun⟩

theorem findFun_error {r : Fname} {sta : Status} : ∀ {names : List (List UInt8)} {i : ℕ},
    findFun r i names = .error sta → sta ≠ .ok
  | [], _, h => by
    cases h
    decide
  | name :: names, i, h => by
    rw [findFun] at h
    split_ifs at h with hsta hname hnum
    · cases h
      exact hsta
    · cases h
      decide
    · exact findFun_error h

/-- What an accepted line has gone through. -/
theorem cmdRec_ok {d d' : Dev} {line : List UInt8} (h : usmartCmdRec d line = some (.ok, d')) :
    (usmartGetFname line).sta = .ok ∧ ∃ id, findFun (usmartGetFname line) 0 usmartNametab = .ok id ∧
      ∃ d₁ n, usmartGetFparam { d with id := id } line = some (.ok, d₁, n) ∧ d' = { d₁ with pnum := n } := by
  rw [usmartCmdRec] at h
  by_cases hsta : (usmartGetFname line).sta = .ok
  · rw [if_neg (not_not.2 hsta)] at h
    refine ⟨hsta, ?_⟩
    rcases hfun : findFun (usmartGetFname line) 0 usmartNametab with sta | id
    · rw [hfun] at h
      obtain ⟨hok, -⟩ := Prod.mk.inj (Option.some.inj h)
      exact absurd hok (findFun_error hfun)
    · rw [hfun] at h
      dsimp only at h
      rcases hparam : usmartGetFparam { d with id := id } line with _ | ⟨sta, d₁, n⟩
      · rw [hparam] at h
        cases h
      · rw [hparam] at h
        dsimp only at h
        split_ifs at h with hok
        · exact absurd (Prod.mk.inj (Option.some.inj h)).1 hok
        · obtain rfl := not_not.1 hok
          exact ⟨id, rfl, d₁, n, hparam, (Prod.mk.inj (Option.some.inj h)).2.symm⟩
  · rw [if_pos hsta] at h
    exact absurd (Prod.mk.inj (Option.some.inj h)).1 hsta

/-- The command is parsed as it was counted, and the arguments that are decoded are its own. -/
structure FullyParsed (d : Dev) (line : List UInt8) : Prop where
  counted : d.pnum = (usmartGetFname line).pnum
  declared : d.declared ≤ d.pnum
  bound : d.pnum ≤ maxParm
  fresh : ∀ i < d.declared, ∃ p, (readParams line).params[i]? = some p ∧
    slice d.parm (d.usmartGetParmpos i).toNat p.bytes.length = p.bytes

/-- Each parenthesis, up to the first one outside of the strings, is preceded by an odd number of quotes of
the list if it is in a string, and by an even number if it is not; no parameter begins in or behind nested
parentheses. -/
def ParensRight (line : List UInt8) : Prop :=
  ∀ list, findList line = some (some list) → RightParens .outside false list

/-- No comma stands in a string of the list. -/
def CommasSeparate (line : List UInt8) : Prop := ∀ list, findList line = some (some list) → CommasOut .outside list

theorem nametab_noQuote : ∀ k (h : k < usmartNametab.length), QUOTE ∉ (usmartGetFname usmartNametab[k]).fname := by
  decide +kernel

/-- The first parameter of a list that is read is no illegal one. -/
theorem readList_first {list : List UInt8} (h : (readList list).ending = .closed) :
    ∃ a, usmartGetAparm list = some a ∧ a.ptype ≠ .err := by
  rw [readList, readLoop] at h
  rcases ha : usmartGetAparm list with _ | a
  · rw [ha] at h
    cases h
  · rw [ha] at h
    refine ⟨a, rfl, fun herr => ?_⟩
    have hparam : a.param = none := by rw [Aparm.param, herr]
    dsimp only at h
    rw [hparam] at h
    cases h

/-- **An accepted command is fully parsed**, if and only if no comma stands in a string; so it is for
the lines whose parentheses find the quote flag right and nest no parameter. -/
theorem fullyParsed_iff {d d' : Dev} {line : List UInt8} (hlen : line.length < usartRecLen)
    (h : usmartCmdRec d line = some (.ok, d')) (hparens : ParensRight line) :
    FullyParsed d' line ↔ CommasSeparate line := by
  obtain ⟨hsta, id, hfun, d₁, n, hparam, rfl⟩ := cmdRec_ok h
  obtain ⟨k, hid, hk, hname, hdeclared⟩ := findFun_ok hfun
  have hstored := fparam_stored hlen hparam
  obtain ⟨hclosed, hcount, hd₁, rfl⟩ := fparam_ok hparam
  obtain ⟨list, hlist, hread⟩ := readParams_closed hclosed
  have hright := hparens list hlist
  rw [hread] at hclosed
  obtain ⟨a, ha, herr⟩ := readList_first hclosed
  have hcounted : (usmartGetFname line).pnum = parts true .outside false list :=
    getFname_pnum hlist hsta (hname ▸ nametab_noQuote k hk) hright ha herr
  have hparsed : (readParams line).params.length = parts false .outside false list :=
    hread ▸ readList_length list hclosed
  have hdecl : ({ d₁ with pnum := (readParams line).params.length } : Dev).declared ≤
      (usmartGetFname line).pnum := by
    have hid' : d₁.id = k := by rw [hd₁, Dev.storeAll_id, Dev.clear, hid, Nat.zero_add]
    have hget : usmartNametab.getD k [] = usmartNametab[k] := by simp [List.getD, hk]
    show (usmartGetFname (usmartNametab.getD d₁.id [])).pnum ≤ _
    rwa [hid', hget]
  have hiff := ((parts_le hright).1 false (.inl rfl)).2
  have hcommas : CommasSeparate line ↔ CommasOut .outside list :=
    ⟨fun h' => h' list hlist, fun h' list' hlist' => by
      obtain rfl : list = list' := by simpa [hlist] using hlist'
      exact h'⟩
  rw [hcommas, ← hiff, ← hparsed, ← hcounted]
  refine ⟨FullyParsed.counted, fun heq => ⟨heq, heq ▸ hdecl, hcount, fun i hi => ?_⟩⟩
  have hi' : i < (readParams line).params.length := Nat.lt_of_lt_of_le hi (heq ▸ hdecl)
  rw [List.take_of_length_le (Nat.le_succ_of_le hcount)] at hstored
  have htotal := total_take_lt hlen
  rw [List.take_of_length_le (Nat.le_succ_of_le hcount)] at htotal
  exact ⟨_, List.getElem?_eq_getElem hi', hstored.slot htotal hi'⟩

/-- Where a parenthesis finds the flag wrong, two errors can cancel out: here a comma in the string, and
a parameter behind the `)` that is taken for the end. -/
example : (usmartGetFname (ascii "read_addr(\"a,\\\")\",1)")).pnum = 2 ∧
    (readParams (ascii "read_addr(\"a,\\\")\",1)")).params.length = 2 := by decide +kernel

/-- So they can where a parameter begins in nested parentheses, which only `usmart_get_fparam` sees. -/
example : (usmartGetFname (ascii "read_addr(\"a,b\"(,1))")).pnum = 2 ∧
    (readParams (ascii "read_addr(\"a,b\"(,1))")).params.length = 2 := by decide +kernel

/-- Parentheses behind a string, with and without a parameter in or behind them. -/
example : RightParens .outside false (ascii "\"a\"())") ∧ ¬ RightParens .outside false (ascii "\"a\"(,1))") ∧
    ¬ RightParens .outside false (ascii "\"a\"(),1)") := by decide +kernel

/-- A number, and a string with parentheses in it and behind it. -/
theorem fullyParsed_write : ∃ d', usmartCmdRec .initial (ascii "write_addr(1,\"(a)\"())") = some (.ok, d') ∧
    d'.pnum = 2 ∧ FullyParsed d' (ascii "write_addr(1,\"(a)\"())") := by
  have hrun : (usmartCmdRec .initial (ascii "write_addr(1,\"(a)\"())")).map (fun x => (x.1, x.2.pnum)) =
      some (.ok, 2) := by decide +kernel
  have hlist : findList (ascii "write_addr(1,\"(a)\"())") = some (some (ascii "1,\"(a)\"())")) := by
    decide +kernel
  obtain ⟨⟨sta, d'⟩, hd', heq⟩ := Option.map_eq_some_iff.1 hrun
  obtain ⟨rfl, hpnum⟩ := Prod.mk.inj heq
  refine ⟨d', hd', hpnum, (fullyParsed_iff (by decide +kernel) hd' fun list h => ?_).2 fun list h => ?_⟩
  · obtain rfl : ascii "1,\"(a)\"())" = list := by simpa [hlist] using h
    decide +kernel
  · obtain rfl : ascii "1,\"(a)\"())" = list := by simpa [hlist] using h
    decide +kernel

/-- A comma in a string: `write_addr` is called with one argument. -/
theorem not_fullyParsed : ¬ ∀ (d d' : Dev) (line : List UInt8), line.length < usartRecLen →
    usmartCmdRec d line = some (.ok, d') → FullyParsed d' line := by
  intro h
  have hrun : (usmartCmdRec .initial (ascii "write_addr(\"a,b\")")).map (fun x => (x.1, x.2.pnum)) =
      some (.ok, 1) := by decide +kernel
  have hcounted : (usmartGetFname (ascii "write_addr(\"a,b\")")).pnum = 2 := by decide +kernel
  obtain ⟨⟨sta, d'⟩, hd', heq⟩ := Option.map_eq_some_iff.1 hrun
  obtain ⟨rfl, hpnum⟩ := Prod.mk.inj heq
  have hfull := (h .initial d' _ (by decide +kernel) hd').counted
  rw [hcounted] at hfull
  cases hpnum.symm.trans hfull

end DataRecorder.Usmart
