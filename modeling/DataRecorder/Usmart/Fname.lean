/-
  The name of a command and the number of its parameters (`usmart_get_fname` in
  `USMART/usmart_str.c`).

  The function looks for the name between the last space or `*` and the first `(`, and
  counts the pieces between the commas up to the `)` that closes it.  Its counters are
  `u8`; no line that fits into the receive buffer makes one of them wrap.

  * `Scan.loop_list`: what is counted in a list whose parentheses the quote flag meets
    as it should;
  * `Scan.loop_quiet`: deeper in the parentheses, nothing is counted where no part begins.
-/
import DataRecorder.Usmart.Fparam

namespace DataRecorder.Usmart

open Base

/-! ## The code -/

/-- The first loop: the type of the result, at most five bytes of it. -/
def retType (fpname : List UInt8) : List UInt8 → List UInt8
  | [] => fpname
  | c :: str =>
    if c ≠ SPACE ∧ fpname.length < 5 then
      if fpname.length = 4 ∧ c ≠ STAR then fpname else retType (fpname ++ [c]) str
    else if fpname.length = 5 then fpname
    else retType fpname str

/-- `usmart_search_nextc`: the next byte that is no space; `none` is the NUL. -/
def usmartSearchNextc (str : List UInt8) : Option UInt8 := (str.tail.dropWhile (· = SPACE)).head?

/-- The second loop: where the name begins. -/
def nameOffset (res offset : ℕ) : List UInt8 → ℕ
  | [] => offset
  | c :: str =>
    if c = LPAR then offset
    else
      let nchar := usmartSearchNextc str
      let offset :=
        if (str.head? = some SPACE ∨ str.head? = some STAR) ∧ nchar ≠ some LPAR ∧ nchar ≠ some STAR then res + 1
        else offset
      nameOffset (res + 1) offset str

/-- The variables of the third loop; `fpname` are the bytes of the first parameter that are kept. -/
structure Scan where
  fover : ℕ
  nchar : Bool
  fname : List UInt8
  temp : ℕ
  pcnt : ℕ
  fpname : List UInt8
  parmnum : ℕ

namespace Scan

def start : Scan := ⟨0, false, [], 1, 0, [], 0⟩

/-- The end of the loop's body: a byte of the name, or of the parameters. -/
def take (s : Scan) (c : UInt8) : Scan :=
  if s.fover = 0 then if c ≠ SPACE then { s with fname := s.fname ++ [c] } else s
  else
    let s :=
      if c = COMMA then { s with temp := 1, pcnt := s.pcnt + 1 }
      else if c ≠ SPACE ∧ c ≠ LPAR then
        { s with
          fpname := if s.pcnt = 0 ∧ s.fpname.length < 5 then s.fpname ++ [c] else s.fpname
          temp := s.temp + 1 }
      else s
    if s.fover = 1 ∧ s.temp = 2 then { s with temp := s.temp + 1, parmnum := s.parmnum + 1 } else s

/-- The third loop. -/
def loop (s : Scan) : List UInt8 → Status × Scan
  | [] => (.funcErr, s)
  | c :: str =>
    if c = LPAR ∧ s.nchar = false then loop ({ s with fover := s.fover + 1 }.take c) str
    else if c = RPAR ∧ s.nchar = false then
      if s.fover = 0 then (.funcErr, s)
      else if s.fover = 1 then (.ok, { s with fover := 0 })
      else loop ({ s with fover := s.fover - 1 }.take c) str
    else if c = QUOTE then loop ({ s with nchar := !s.nchar }.take c) str
    else loop (s.take c) str

end Scan

/-- The results of `usmart_get_fname`; `rval` stays as it is for a blank string. -/
structure Fname where
  sta : Status
  fname : List UInt8
  pnum : ℕ
  rval : Option Bool

def usmartGetFname (str : List UInt8) : Fname :=
  let fpname := retType [] str
  let offset := nameOffset 0 0 str
  let (sta, s) := Scan.start.loop (if offset ≠ 0 then str.drop (offset + 1) else str)
  { sta := sta
    fname := s.fname
    pnum := if s.parmnum = 1 ∧ s.fpname = ascii "void" then 0 else s.parmnum
    rval := if fpname = [] then none else some (fpname ≠ ascii "void") }

/-! ## Where a byte of the list stands -/

/-- Between the strings, in one, behind its backslash, or between its end and the next comma. -/
inductive Place where
  | outside
  | string
  | escaped
  | after
  deriving DecidableEq

namespace Place

def next (p : Place) (c : UInt8) : Place :=
  match p with
  | outside => if c = QUOTE then string else outside
  | string => if c = BACKSLASH then escaped else if c = QUOTE then after else string
  | escaped => string
  | after => if c = COMMA then outside else after

/-- The byte belongs to no string. -/
def Out (p : Place) : Prop := p = outside ∨ p = after

instance (p : Place) : Decidable p.Out := inferInstanceAs (Decidable (_ ∨ _))

end Place

/-- The number of parts between the commas; `started` tells whether the present part has begun.  For
`usmart_get_fparam` the commas of no string separate, and the list ends with the first `)` of no string.  For
`usmart_get_fname` (`all`) every comma separates; what follows a `(` of no string is left to `Quiet`. -/
def parts (all : Bool) (p : Place) (started : Bool) : List UInt8 → ℕ
  | [] => 0
  | c :: l =>
    if (c = RPAR ∨ c = LPAR ∧ all = true) ∧ p.Out then 0
    else if c = COMMA ∧ (all = true ∨ p.Out) then parts all (p.next c) false l
    else if started = true ∨ c = SPACE ∨ c = LPAR then parts all (p.next c) started l
    else parts all (p.next c) true l + 1

/-- `usmart_get_fname`, `d` parentheses deep, counts no other part: none begins at the level of the list
up to the `)` that closes it.  `odd` is said of the quotes before. -/
def Quiet (d : ℕ) (odd started : Bool) : List UInt8 → Prop
  | [] => True
  | c :: l =>
    if c = LPAR ∧ odd = false then Quiet (d + 1) odd started l
    else if c = RPAR ∧ odd = false then d = 1 ∨ (started = true ∨ d ≠ 2) ∧ Quiet (d - 1) odd true l
    else if c = COMMA then Quiet d odd false l
    else if c = SPACE ∨ c = LPAR then Quiet d odd started l
    else (started = true ∨ d ≠ 1) ∧ Quiet d (if c = QUOTE then !odd else odd) true l

instance Quiet.decidable : ∀ (d : ℕ) (odd started : Bool) (l : List UInt8), Decidable (Quiet d odd started l)
  | _, _, _, [] => isTrue trivial
  | d, odd, started, c :: l =>
    have := Quiet.decidable (d + 1) odd started l
    have := Quiet.decidable (d - 1) odd true l
    have := Quiet.decidable d odd false l
    have := Quiet.decidable d odd started l
    have := Quiet.decidable d (if c = QUOTE then !odd else odd) true l
    inferInstanceAs (Decidable (if c = LPAR ∧ odd = false then Quiet (d + 1) odd started l
      else if c = RPAR ∧ odd = false then d = 1 ∨ (started = true ∨ d ≠ 2) ∧ Quiet (d - 1) odd true l
      else if c = COMMA then Quiet d odd false l
      else if c = SPACE ∨ c = LPAR then Quiet d odd started l
      else (started = true ∨ d ≠ 1) ∧ Quiet d (if c = QUOTE then !odd else odd) true l))

/-- The list has a parenthesis outside of the strings, and up to the first one each finds the quote flag
right: those in strings are preceded by an odd number of quotes of the list, that one by an even number.  If it
is a `(`, behind a string, then no parameter begins behind it, for neither of the two functions.  `odd` is said
of the quotes before. -/
def RightParens (p : Place) (odd : Bool) : List UInt8 → Prop
  | [] => False
  | c :: l =>
    if (c = RPAR ∨ c = LPAR) ∧ p.Out then
      odd = false ∧ (c = LPAR → p = .after ∧ Quiet 2 false true l ∧ parts false .after true l = 0)
    else (c = RPAR ∨ c = LPAR → odd = true) ∧ RightParens (p.next c) (if c = QUOTE then !odd else odd) l

instance RightParens.decidable : ∀ (p : Place) (odd : Bool) (l : List UInt8), Decidable (RightParens p odd l)
  | _, _, [] => isFalse id
  | p, odd, c :: l =>
    have := RightParens.decidable (p.next c) (if c = QUOTE then !odd else odd) l
    inferInstanceAs (Decidable (if (c = RPAR ∨ c = LPAR) ∧ p.Out then
        odd = false ∧ (c = LPAR → p = .after ∧ Quiet 2 false true l ∧ parts false .after true l = 0)
      else (c = RPAR ∨ c = LPAR → odd = true) ∧ RightParens (p.next c) (if c = QUOTE then !odd else odd) l))

/-- No comma stands in a string, up to the first parenthesis outside of the strings. -/
def CommasOut (p : Place) : List UInt8 → Prop
  | [] => True
  | c :: l => (c = RPAR ∨ c = LPAR) ∧ p.Out ∨ (c = COMMA → p.Out) ∧ CommasOut (p.next c) l

instance CommasOut.decidable : ∀ (p : Place) (l : List UInt8), Decidable (CommasOut p l)
  | _, [] => isTrue trivial
  | p, c :: l =>
    have := CommasOut.decidable (p.next c) l
    inferInstanceAs (Decidable ((c = RPAR ∨ c = LPAR) ∧ p.Out ∨ (c = COMMA → p.Out) ∧ CommasOut (p.next c) l))

/-! ## The list -/

namespace Scan

/-- Inside of the list; `temp` never stays at 2. -/
structure InList (s : Scan) : Prop where
  fover : s.fover = 1
  temp : s.temp = 1 ∨ 3 ≤ s.temp

theorem take_comma {s : Scan} (h : s.InList) : s.take COMMA = { s with temp := 1, pcnt := s.pcnt + 1 } := by
  rw [take, if_neg (by rw [h.fover]; decide), if_pos rfl]
  exact if_neg fun h' => absurd h'.2 (by simp)

theorem take_blank {s : Scan} (h : s.InList) {c : UInt8} (hc : c = SPACE ∨ c = LPAR) : s.take c = s := by
  have hcomma : c ≠ COMMA := by rcases hc with rfl | rfl <;> decide
  have hblank : ¬ (c ≠ SPACE ∧ c ≠ LPAR) := fun h' => hc.elim h'.1 h'.2
  rw [take, if_neg (by rw [h.fover]; decide), if_neg hcomma, if_neg hblank]
  exact if_neg fun h' => by have := h.temp; omega

theorem take_other {s : Scan} (h : s.InList) {c : UInt8} (hcomma : c ≠ COMMA) (hc : ¬ (c = SPACE ∨ c = LPAR)) :
    s.take c = { s with
      fpname := if s.pcnt = 0 ∧ s.fpname.length < 5 then s.fpname ++ [c] else s.fpname
      temp := if s.temp = 1 then 3 else s.temp + 1
      parmnum := if s.temp = 1 then s.parmnum + 1 else s.parmnum } := by
  rw [take, if_neg (by rw [h.fover]; decide), if_neg hcomma, if_pos (not_or.1 hc)]
  by_cases htemp : s.temp = 1
  · rw [if_pos htemp, if_pos htemp, if_pos ⟨h.fover, congrArg (· + 1) htemp⟩]
    simp only [htemp]
  · have hlt := h.temp.resolve_left htemp
    rw [if_neg htemp, if_neg htemp]
    exact if_neg fun h' => absurd h'.2 (by dsimp only; omega)

theorem InList.take {s : Scan} (h : s.InList) (c : UInt8) : (s.take c).InList := by
  by_cases hcomma : c = COMMA
  · rw [hcomma, take_comma h]
    exact ⟨h.fover, .inl rfl⟩
  by_cases hblank : c = SPACE ∨ c = LPAR
  · rwa [take_blank h hblank]
  · rw [take_other h hcomma hblank]
    refine ⟨h.fover, .inr ?_⟩
    dsimp only
    split_ifs with htemp
    · exact le_rfl
    · exact Nat.le_succ_of_le (h.temp.resolve_left htemp)

theorem take_frame {s : Scan} (h : s.InList) (c : UInt8) :
    (s.take c).nchar = s.nchar ∧ (s.take c).fname = s.fname := by
  by_cases hcomma : c = COMMA
  · rw [hcomma, take_comma h]
    exact ⟨rfl, rfl⟩
  by_cases hblank : c = SPACE ∨ c = LPAR
  · rw [take_blank h hblank]
    exact ⟨rfl, rfl⟩
  · rw [take_other h hcomma hblank]
    exact ⟨rfl, rfl⟩

/-- The quote flag, before the body sees the byte. -/
def quote (s : Scan) (c : UInt8) : Scan := { s with nchar := if c = QUOTE then !s.nchar else s.nchar }

theorem InList.quote {s : Scan} (h : s.InList) (c : UInt8) : (s.quote c).InList := ⟨h.fover, h.temp⟩

/-- A byte that is not the end. -/
theorem loop_step {s : Scan} {c : UInt8} (l : List UInt8) (h : c = LPAR ∨ c = RPAR → s.nchar = true) :
    s.loop (c :: l) = ((s.quote c).take c).loop l := by
  have hquote : c ≠ QUOTE → s.quote c = s := fun hc => by rw [quote, if_neg hc]
  rw [loop]
  by_cases hl : c = LPAR
  · rw [if_neg fun h' => absurd h'.2 (by simp [h (.inl hl)]), if_neg fun h' => absurd h'.2 (by simp [h (.inl hl)]),
      if_neg (by rw [hl]; decide), hquote (by rw [hl]; decide)]
  by_cases hr : c = RPAR
  · rw [if_neg fun h' => hl h'.1, if_neg fun h' => absurd h'.2 (by simp [h (.inr hr)]),
      if_neg (by rw [hr]; decide), hquote (by rw [hr]; decide)]
  rw [if_neg fun h' => hl h'.1, if_neg fun h' => hr h'.1]
  by_cases hq : c = QUOTE
  · rw [if_pos hq, quote, if_pos hq]
  · rw [if_neg hq, hquote hq]

/-- The `)` of the list. -/
theorem loop_end {s : Scan} (h : s.InList) (hn : s.nchar = false) (l : List UInt8) :
    s.loop (RPAR :: l) = (.ok, { s with fover := 0 }) := by
  have hl : ¬ (RPAR = LPAR ∧ s.nchar = false) := fun h' => absurd h'.1 (by decide)
  rw [loop, if_neg hl, if_pos ⟨rfl, hn⟩, if_neg (by rw [h.fover]; decide), if_pos h.fover]

/-- Whether the present part has begun behind the byte `c`. -/
def begun (started : Bool) (c : UInt8) : Bool :=
  if c = COMMA then false else if c = SPACE ∨ c = LPAR then started else true

/-- A byte that begins no part at the level of the list; `temp` stays at 2 only deeper in the parentheses. -/
theorem take_quiet {s : Scan} {c : UInt8} (hfover : 0 < s.fover) (htemp : 0 < s.temp)
    (htwo : c = SPACE ∨ c = LPAR → s.fover = 1 → s.temp ≠ 2)
    (hcount : c ≠ COMMA → ¬ (c = SPACE ∨ c = LPAR) → s.temp ≠ 1 ∨ s.fover ≠ 1) :
    (s.take c).parmnum = s.parmnum ∧ (s.take c).fover = s.fover ∧ (s.take c).nchar = s.nchar ∧ 0 < (s.take c).temp ∧
      ((s.take c).fover = 1 → (s.take c).temp ≠ 2) ∧ decide ((s.take c).temp ≠ 1) = begun (decide (s.temp ≠ 1)) c := by
  rw [take, if_neg (Nat.ne_of_gt hfover), begun]
  dsimp only
  by_cases hcomma : c = COMMA
  · rw [if_pos hcomma, if_pos hcomma, if_neg (by simp)]
    exact ⟨rfl, rfl, rfl, Nat.one_pos, by simp, by simp⟩
  rw [if_neg hcomma, if_neg hcomma]
  by_cases hblank : c = SPACE ∨ c = LPAR
  · have hnot : ¬ (c ≠ SPACE ∧ c ≠ LPAR) := fun h => hblank.elim h.1 h.2
    rw [if_neg hnot, if_pos hblank, if_neg fun h => htwo hblank h.1 h.2]
    exact ⟨rfl, rfl, rfl, htemp, htwo hblank, rfl⟩
  · have hone := hcount hcomma hblank
    rw [if_pos (not_or.1 hblank), if_neg hblank, if_neg fun h : s.fover = 1 ∧ s.temp + 1 = 2 => by omega]
    refine ⟨rfl, rfl, rfl, Nat.succ_pos _, fun h : s.fover = 1 => ?_, ?_⟩
    · show s.temp + 1 ≠ 2
      omega
    · exact decide_eq_true (show s.temp + 1 ≠ 1 by omega)

/-- **Where no part begins, none is counted.** -/
theorem loop_quiet {l : List UInt8} : ∀ {s : Scan}, 0 < s.fover → 0 < s.temp → (s.fover = 1 → s.temp ≠ 2) →
    Quiet s.fover s.nchar (decide (s.temp ≠ 1)) l → (s.loop l).2.parmnum = s.parmnum := by
  induction l with
  | nil => exact fun _ _ _ _ => rfl
  | cons c l ih =>
    have hbody : ∀ {s : Scan}, 0 < s.fover → 0 < s.temp → (c = SPACE ∨ c = LPAR → s.fover = 1 → s.temp ≠ 2) →
        (c ≠ COMMA → ¬ (c = SPACE ∨ c = LPAR) → s.temp ≠ 1 ∨ s.fover ≠ 1) →
        Quiet s.fover s.nchar (begun (decide (s.temp ≠ 1)) c) l → ((s.take c).loop l).2.parmnum = s.parmnum := by
      intro s hfover htemp htwo hcount hquiet
      obtain ⟨hnum, hdepth, hnchar, htemp', htwo', hbegun⟩ := take_quiet hfover htemp htwo hcount
      exact (ih (hdepth ▸ hfover) htemp' htwo' (by rwa [hdepth, hnchar, hbegun])).trans hnum
    intro s hfover htemp htwo hquiet
    rw [Quiet] at hquiet
    rw [loop]
    by_cases hl : c = LPAR ∧ s.nchar = false
    · rw [if_pos hl] at hquiet ⊢
      obtain ⟨rfl, hn⟩ := hl
      have hdeeper : s.fover + 1 ≠ 1 := Nat.ne_of_gt (Nat.lt_add_of_pos_left hfover)
      exact hbody (s := { s with fover := s.fover + 1 }) (Nat.succ_pos _) htemp (fun _ h => absurd h hdeeper)
        (fun _ h => absurd (.inr rfl) h) (hn ▸ hquiet)
    rw [if_neg hl] at hquiet ⊢
    by_cases hr : c = RPAR ∧ s.nchar = false
    · rw [if_pos hr] at hquiet ⊢
      rw [if_neg (Nat.ne_of_gt hfover)]
      by_cases hone : s.fover = 1
      · rw [if_pos hone]
      rw [if_neg hone]
      obtain ⟨hstarted, hrest⟩ := hquiet.resolve_left hone
      rw [decide_eq_true_eq] at hstarted
      obtain ⟨rfl, hn⟩ := hr
      refine hbody (s := { s with fover := s.fover - 1 }) (show 0 < s.fover - 1 by omega) htemp
        (fun h => absurd h (by decide)) (fun _ _ => hstarted.imp_right fun h => show s.fover - 1 ≠ 1 by omega)
        (hn ▸ hrest)
    rw [if_neg hr] at hquiet ⊢
    by_cases hq : c = QUOTE
    · rw [if_neg (by rw [hq]; decide), if_neg (by rw [hq]; decide), if_pos hq] at hquiet
      obtain ⟨hstarted, hrest⟩ := hquiet
      rw [decide_eq_true_eq] at hstarted
      subst hq
      exact hbody (s := { s with nchar := !s.nchar }) hfover htemp (fun h => absurd h (by decide))
        (fun _ _ => hstarted) hrest
    rw [if_neg hq]
    refine hbody hfover htemp (fun _ => htwo) (fun hcomma hblank => ?_) ?_
    · rw [if_neg hcomma, if_neg hblank, decide_eq_true_eq] at hquiet
      exact hquiet.1
    · rw [begun]
      by_cases hcomma : c = COMMA
      · rwa [if_pos hcomma] at hquiet ⊢
      rw [if_neg hcomma] at hquiet ⊢
      by_cases hblank : c = SPACE ∨ c = LPAR
      · rwa [if_pos hblank] at hquiet ⊢
      · rw [if_neg hblank, if_neg hq] at hquiet
        rw [if_neg hblank]
        exact hquiet.2

/-- A `(` behind a string. -/
theorem loop_nested {s : Scan} (h : s.InList) (hn : s.nchar = false) (htemp : s.temp ≠ 1) {l : List UInt8}
    (hquiet : Quiet 2 false true l) : (s.loop (LPAR :: l)).2.parmnum = s.parmnum := by
  have htemp' := h.temp.resolve_left htemp
  refine loop_quiet (by rw [h.fover]; decide) (by omega) (fun _ => by omega) ?_
  rw [Quiet, if_pos ⟨rfl, hn⟩, h.fover, hn, decide_eq_true htemp]
  exact hquiet

/-- Behind a string the present part has begun. -/
theorem InList.after {s : Scan} (h : s.InList) {p : Place} {c : UInt8} (hafter : p = .after → s.temp ≠ 1)
    (hnext : p.next c = .after) : (s.take c).temp ≠ 1 := by
  have hcomma : c ≠ COMMA := by
    rintro rfl
    cases p <;> simp [Place.next, COMMA, QUOTE, BACKSLASH] at hnext
  by_cases hblank : c = SPACE ∨ c = LPAR
  · rw [take_blank h hblank]
    refine hafter ?_
    cases p with
    | after => rfl
    | outside | string | escaped =>
      rcases hblank with rfl | rfl <;> simp [Place.next, SPACE, LPAR, QUOTE, BACKSLASH] at hnext
  · rw [take_other h hcomma hblank]
    have := h.temp
    dsimp only
    split_ifs <;> omega

/-- **The count of the list** is the number of parts between all commas. -/
theorem loop_list {l : List UInt8} : ∀ {s : Scan} {p : Place}, s.InList → (p = .after → s.temp ≠ 1) →
    RightParens p s.nchar l → (s.loop l).2.parmnum = s.parmnum + parts true p (decide (s.temp ≠ 1)) l := by
  induction l with
  | nil => exact fun _ _ h => h.elim
  | cons c l ih =>
    intro s p hs hafter h
    rw [RightParens] at h
    rw [parts]
    by_cases hend : (c = RPAR ∨ c = LPAR) ∧ p.Out
    · rw [if_pos hend] at h
      rw [if_pos ⟨hend.1.imp_right fun hl => ⟨hl, rfl⟩, hend.2⟩, Nat.add_zero]
      obtain ⟨hn, hnested⟩ := h
      rcases hend.1 with rfl | rfl
      · rw [loop_end hs hn]
      · obtain ⟨hp, hquiet, -⟩ := hnested rfl
        exact loop_nested hs hn (hafter hp) hquiet
    rw [if_neg hend] at h
    obtain ⟨hparen, hrest⟩ := h
    rw [loop_step l fun h => hparen h.symm, if_neg fun h => hend ⟨h.1.imp_right And.left, h.2⟩]
    have hs' := hs.quote c
    have hnum := ih (s := (s.quote c).take c) (p := p.next c) (hs'.take c) (hs'.after hafter)
      (by rwa [(take_frame hs' c).1])
    refine hnum.trans ?_
    by_cases hcomma : c = COMMA
    · rw [if_pos ⟨hcomma, .inl rfl⟩, hcomma, take_comma (hcomma ▸ hs')]
      rfl
    rw [if_neg fun h' => hcomma h'.1]
    by_cases hblank : c = SPACE ∨ c = LPAR
    · rw [if_pos (.inr hblank), take_blank hs' hblank]
      rfl
    rw [take_other hs' hcomma hblank]
    show (if s.temp = 1 then s.parmnum + 1 else s.parmnum) +
      parts true (p.next c) (decide ((if s.temp = 1 then 3 else s.temp + 1) ≠ 1)) l = _
    by_cases htemp : s.temp = 1
    · rw [if_pos htemp, if_pos htemp, if_neg (by simp [htemp, hblank])]
      simp [Nat.add_assoc, Nat.add_comm]
    · have hstarted : s.temp + 1 ≠ 1 := by
        have := hs.temp
        omega
      rw [if_neg htemp, if_neg htemp, if_pos (.inl (decide_eq_true htemp)), decide_eq_true htemp,
        decide_eq_true hstarted]

/-! ## The first parameter -/

theorem take_fpname (s : Scan) (c : UInt8) :
    s.fpname <+: (s.take c).fpname ∧ (s.pcnt ≠ 0 → (s.take c).pcnt ≠ 0 ∧ (s.take c).fpname = s.fpname) := by
  simp only [take]
  split_ifs <;> simp_all

theorem loop_fpname (l : List UInt8) : ∀ s : Scan,
    s.fpname <+: (s.loop l).2.fpname ∧ (s.pcnt ≠ 0 → (s.loop l).2.fpname = s.fpname) := by
  induction l with
  | nil => exact fun s => ⟨List.prefix_refl _, fun _ => rfl⟩
  | cons c l ih =>
    have hnext : ∀ s : Scan, s.fpname <+: ((s.take c).loop l).2.fpname ∧
        (s.pcnt ≠ 0 → ((s.take c).loop l).2.fpname = s.fpname) := by
      intro s
      obtain ⟨hpre, hkeep⟩ := take_fpname s c
      obtain ⟨hpre', hkeep'⟩ := ih (s.take c)
      exact ⟨hpre.trans hpre', fun h => (hkeep' (hkeep h).1).trans (hkeep h).2⟩
    intro s
    rw [loop]
    split_ifs
    · exact hnext { s with fover := s.fover + 1 }
    · exact ⟨List.prefix_refl _, fun _ => rfl⟩
    · exact ⟨List.prefix_refl _, fun _ => rfl⟩
    · exact hnext { s with fover := s.fover - 1 }
    · exact hnext { s with nchar := !s.nchar }
    · exact hnext s

/-- The first byte of a parameter stays the first one that is kept. -/
theorem loop_kept (l : List UInt8) {s : Scan} {c : UInt8} (hs : s.InList) (hfp : s.fpname = []) (hpcnt : s.pcnt = 0)
    (hcomma : c ≠ COMMA) (hblank : ¬ (c = SPACE ∨ c = LPAR)) : [c] <+: ((s.take c).loop l).2.fpname := by
  have hpre := (loop_fpname l (s.take c)).1
  rw [take_other hs hcomma hblank] at hpre ⊢
  simpa only [hfp, hpcnt, List.length_nil, Nat.zero_lt_succ, and_self, if_true, List.nil_append] using hpre

/-- A parameter that is read begins with a byte of a number or with a quote. -/
theorem aparm_first {c : UInt8} {l : List UInt8} {a : Aparm} (ha : usmartGetAparm (c :: l) = some a)
    (herr : a.ptype ≠ .err) (hr : c ≠ RPAR) (hcomma : c ≠ COMMA) (hspace : c ≠ SPACE) :
    InNumber c ∨ c = QUOTE := by
  rw [usmartGetAparm, numLoop, if_neg hr, if_neg hcomma] at ha
  by_contra hnot
  obtain ⟨hnum, hquote⟩ := not_or.1 hnot
  rw [if_neg hnum, if_neg hquote, if_pos hspace] at ha
  obtain rfl := Option.some.inj ha
  exact herr rfl

/-- A list that is read does not begin with `void`. -/
theorem loop_ne_void {l : List UInt8} : ∀ {s : Scan} {a : Aparm}, s.InList → s.fpname = [] → s.pcnt = 0 →
    RightParens .outside s.nchar l → usmartGetAparm l = some a → a.ptype ≠ .err →
    (s.loop l).2.fpname ≠ ascii "void" := by
  induction l with
  | nil => exact fun _ _ _ h => h.elim
  | cons c l ih =>
    intro s a hs hfp hpcnt h ha herr
    have hvoid : ([] : List UInt8) ≠ ascii "void" := by decide +kernel
    rw [RightParens] at h
    by_cases hr : c = RPAR
    · rw [if_pos ⟨.inl hr, .inl rfl⟩] at h
      rw [hr, loop_end hs h.1, hfp]
      exact hvoid
    by_cases hl : c = LPAR
    · rw [if_pos ⟨.inr hl, .inl rfl⟩] at h
      cases (h.2 hl).1
    rw [if_neg fun h' => h'.1.elim hr hl] at h
    obtain ⟨hparen, hrest⟩ := h
    rw [loop_step l fun h => hparen h.symm]
    have hs' := hs.quote c
    by_cases hcomma : c = COMMA
    · subst hcomma
      rw [take_comma hs', (loop_fpname l _).2 (by simp)]
      exact hfp ▸ hvoid
    by_cases hspace : c = SPACE
    · subst hspace
      rw [take_blank hs' (.inl rfl)]
      exact ih hs' hfp hpcnt hrest ha herr
    -- any other byte is kept, and it is no `v`
    have hbyte := aparm_first ha herr hr hcomma hspace
    have hblank : ¬ (c = SPACE ∨ c = LPAR) := by
      rintro (h' | rfl)
      · exact hspace h'
      · exact absurd hbyte (by decide)
    have hkept := loop_kept l hs' hfp hpcnt hcomma hblank
    intro heq
    rw [heq] at hkept
    obtain ⟨t, ht⟩ := hkept
    have hvoid : ascii "void" = 0x76 :: [0x6f, 0x69, 0x64] := by decide +kernel
    have hc : c = 0x76 := (List.cons.inj (ht.trans hvoid)).1
    rw [hc] at hbyte
    exact absurd hbyte (by decide)

/-! ## The name -/

theorem take_fname (s : Scan) (c : UInt8) : s.fname <+: (s.take c).fname := by
  simp only [take]
  split_ifs <;> simp

theorem loop_fname (l : List UInt8) : ∀ s : Scan, s.fname <+: (s.loop l).2.fname := by
  induction l with
  | nil => exact fun s => List.prefix_refl _
  | cons c l ih =>
    have hnext : ∀ s : Scan, s.fname <+: ((s.take c).loop l).2.fname :=
      fun s => (take_fname s c).trans (ih _)
    intro s
    rw [loop]
    split_ifs
    · exact hnext { s with fover := s.fover + 1 }
    · exact List.prefix_refl _
    · exact List.prefix_refl _
    · exact hnext { s with fover := s.fover - 1 }
    · exact hnext { s with nchar := !s.nchar }
    · exact hnext s

/-- The scan of the name so far, and the same behind the `(`. -/
def named (fname : List UInt8) : Scan := ⟨0, false, fname, 1, 0, [], 0⟩

def opened (fname : List UInt8) : Scan := ⟨1, false, fname, 1, 0, [], 0⟩

theorem loop_open (fname list : List UInt8) : (named fname).loop (LPAR :: list) = (opened fname).loop list := by
  rw [loop, if_pos ⟨rfl, rfl⟩]
  exact congrArg (loop · list) (take_blank ⟨rfl, .inl rfl⟩ (.inr rfl))

/-- A byte of the name. -/
theorem loop_named {fname l : List UInt8} {c : UInt8} (hl : c ≠ LPAR) (hok : ((named fname).loop (c :: l)).1 = .ok)
    (hquote : QUOTE ∉ ((named fname).loop (c :: l)).2.fname) :
    ∃ fname', (named fname).loop (c :: l) = (named fname').loop l := by
  rw [loop, if_neg fun h => hl h.1] at hok hquote ⊢
  by_cases hr : c = RPAR
  · rw [if_pos ⟨hr, rfl⟩] at hok
    cases hok
  rw [if_neg fun h => hr h.1] at hok hquote ⊢
  by_cases hq : c = QUOTE
  · rw [if_pos hq] at hquote
    refine absurd ((loop_fname l _).subset ?_) hquote
    rw [hq]
    exact List.mem_append_right fname (List.mem_singleton_self QUOTE)
  rw [if_neg hq]
  by_cases hspace : c = SPACE
  · exact ⟨fname, congrArg (loop · l) (if_neg (not_not.2 hspace))⟩
  · exact ⟨fname ++ [c], congrArg (loop · l) (if_pos hspace)⟩

/-- The scan of the name, if it comes to a good end and the name has no quote. -/
theorem loop_name {list : List UInt8} : ∀ {head f : List UInt8}, LPAR ∉ head →
    ((named f).loop (head ++ LPAR :: list)).1 = .ok →
    QUOTE ∉ ((named f).loop (head ++ LPAR :: list)).2.fname →
    ∃ f', (named f).loop (head ++ LPAR :: list) = (opened f').loop list
  | [], f, _, _, _ => ⟨f, loop_open f list⟩
  | c :: head, f, hhead, hok, hquote => by
    obtain ⟨hc, hhead⟩ := not_or.1 (mt List.mem_cons.2 hhead)
    rw [List.cons_append] at hok hquote ⊢
    obtain ⟨f', hstep⟩ := loop_named (Ne.symm hc) hok hquote
    rw [hstep] at hok hquote ⊢
    exact loop_name hhead hok hquote

end Scan

theorem nameOffset_le (list : List UInt8) : ∀ {head : List UInt8} (res offset : ℕ), LPAR ∉ head →
    nameOffset res offset (head ++ LPAR :: list) = offset ∨
      nameOffset res offset (head ++ LPAR :: list) + 1 ≤ res + head.length
  | [], res, offset, _ => by
    left
    rw [List.nil_append, nameOffset, if_pos rfl]
  | c :: head, res, offset, hhead => by
    obtain ⟨hc, hhead⟩ := not_or.1 (mt List.mem_cons.2 hhead)
    rw [List.cons_append, nameOffset, if_neg (Ne.symm hc), List.length_cons]
    dsimp only
    split_ifs with hnext
    · have hne : head ≠ [] := by
        rintro rfl
        exact absurd hnext.1 (by simp [LPAR, SPACE, STAR])
      have hpos := List.length_pos_iff.2 hne
      rcases nameOffset_le list (res + 1) (res + 1) hhead with h | h
      · rw [h]
        omega
      · omega
    · rcases nameOffset_le list (res + 1) offset hhead with h | h
      · exact .inl h
      · omega

theorem findList_some {list : List UInt8} : ∀ {line : List UInt8}, findList line = some (some list) →
    ∃ head, LPAR ∉ head ∧ line = head ++ LPAR :: list
  | [], h => by cases h
  | c :: str, h => by
    unfold findList at h
    by_cases hc : c = LPAR
    · rw [if_pos hc] at h
      cases h
      exact ⟨[], List.not_mem_nil, by rw [hc]; rfl⟩
    · rw [if_neg hc] at h
      cases str with
      | nil => cases h
      | cons d str =>
        obtain ⟨head, hhead, heq⟩ := findList_some h
        exact ⟨c :: head, by simp [Ne.symm hc, hhead], by rw [heq]; rfl⟩

/-- **What `usmart_get_fname` counts.** -/
theorem getFname_pnum {line list : List UInt8} {a : Aparm} (hlist : findList line = some (some list))
    (hok : (usmartGetFname line).sta = .ok) (hquote : QUOTE ∉ (usmartGetFname line).fname)
    (hparens : RightParens .outside false list) (ha : usmartGetAparm list = some a) (herr : a.ptype ≠ .err) :
    (usmartGetFname line).pnum = parts true .outside false list := by
  obtain ⟨head, hhead, rfl⟩ := findList_some hlist
  obtain ⟨head', hhead', hstart⟩ : ∃ head', LPAR ∉ head' ∧
      (if nameOffset 0 0 (head ++ LPAR :: list) ≠ 0 then
        (head ++ LPAR :: list).drop (nameOffset 0 0 (head ++ LPAR :: list) + 1) else head ++ LPAR :: list) =
      head' ++ LPAR :: list := by
    split_ifs with h
    · have hle := (nameOffset_le list 0 0 hhead).resolve_left h
      exact ⟨head.drop _, fun hmem => hhead (List.mem_of_mem_drop hmem),
        List.drop_append_of_le_length (by omega)⟩
    · exact ⟨head, hhead, rfl⟩
  simp only [usmartGetFname, hstart] at hok hquote ⊢
  obtain ⟨fname, hloop⟩ : ∃ fname, Scan.start.loop (head' ++ LPAR :: list) = (Scan.opened fname).loop list :=
    Scan.loop_name (f := []) hhead' hok hquote
  have hin : (Scan.opened fname).InList := ⟨rfl, .inl rfl⟩
  have hnum := Scan.loop_list (p := .outside) hin (fun h => by cases h) hparens
  have hvoid := Scan.loop_ne_void hin rfl rfl hparens ha herr
  rw [hloop, if_neg fun h => hvoid h.2, hnum]
  exact Nat.zero_add _

end DataRecorder.Usmart
