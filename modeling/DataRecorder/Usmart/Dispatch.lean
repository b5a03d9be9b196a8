/-
  The function that a command selects (`usmart_search_nextc`, `usmart_get_fname` in
  `USMART/usmart_str.c`, `usmart_cmd_rec` in `USMART/usmart.c`), for any table of
  prototypes.

  * `getFname_shape`: the name and the number of parameters of a prototype, and of a
    command;
  * `dispatches_iff`: when the function that is named is selected.
-/
import DataRecorder.Usmart.Command
import DataRecorder.Usmart.FnameBuffer

namespace DataRecorder.Usmart

open Base

/-! ## The code -/

/-- `usmart_cmd_rec` for the table `funs`, whose length `fnum` is a `u8`. -/
def usmartCmdRecIn (funs : List (List UInt8)) (d : Dev) (str : List UInt8) : Option (Status × Dev) :=
  let fnum := UInt8.ofNat funs.length
  let r := usmartGetFname str
  if r.sta ≠ .ok then some (r.sta, d)
  else match findFun r 0 (funs.take fnum.toNat) with
    | .error sta => some (sta, d)
    | .ok id =>
      match usmartGetFparam { d with id := id } str with
      | none => none
      | some (sta, d, n) => if sta ≠ .ok then some (sta, d) else some (.ok, { d with pnum := n })

/-- The table of the program. -/
theorem cmdRecIn_nametab (d : Dev) (str : List UInt8) : usmartCmdRecIn usmartNametab d str = usmartCmdRec d str := rfl

/-! ## Prototypes and commands -/

/-- A byte of an identifier. -/
def IsWord (c : UInt8) : Prop :=
  (0x30 ≤ c ∧ c ≤ 0x39) ∨ (0x41 ≤ c ∧ c ≤ 0x5a) ∨ (0x61 ≤ c ∧ c ≤ 0x7a) ∨ c = 0x5f

instance (c : UInt8) : Decidable (IsWord c) := inferInstanceAs (Decidable (_ ∨ _))

structure Ident where
  text : List UInt8
  ne_nil : text ≠ []
  isWord : ∀ c ∈ text, IsWord c
  short : text.length < maxFnameLen

/-- A parameter or an argument: no parenthesis, comma or quote is in it, and it is not blank. -/
structure Item where
  text : List UInt8
  plain : ∀ c ∈ text, c ≠ LPAR ∧ c ≠ RPAR ∧ c ≠ COMMA ∧ c ≠ QUOTE
  filled : ∃ c ∈ text, c ≠ SPACE

/-- With a comma between two of them. -/
def joined : List Item → List UInt8
  | [] => []
  | [p] => p.text
  | p :: q :: ps => p.text ++ COMMA :: joined (q :: ps)

/-- The word `void`, maybe between spaces. -/
def IsVoid (text : List UInt8) : Prop := ∃ a b, Spaces a ∧ Spaces b ∧ text = a ++ ascii "void" ++ b

inductive ParamList where
  | empty (inner : List UInt8) (h : Spaces inner)
  | void (before after : List UInt8) (hbefore : Spaces before) (hafter : Spaces after)
  | params (ps : List Item) (hpos : ps ≠ []) (hmax : ps.length ≤ maxParm) (hvoid : ∀ p, ps = [p] → ¬ IsVoid p.text)

namespace ParamList

def text : ParamList → List UInt8
  | empty inner _ => inner
  | void before after _ _ => before ++ ascii "void" ++ after
  | params ps _ _ _ => joined ps

/-- The number of the parameters. -/
def declared : ParamList → ℕ
  | empty _ _ | void _ _ _ _ => 0
  | params ps _ _ _ => ps.length

/-- The only parameter is spelled like `void`, with spaces in it. -/
def Disguised : ParamList → Prop
  | params [p] _ _ _ => p.text.filter (· ≠ SPACE) = ascii "void"
  | _ => False

end ParamList

/-- What follows the name: a list between parentheses, and anything behind it. -/
def behindName (gap list after : List UInt8) : List UInt8 := gap ++ LPAR :: (list ++ RPAR :: after)

/-- A line of the table: the type of the result, the identifier and the list of parameters. -/
structure Prototype where
  ret : List UInt8
  ident : Ident
  gap : List UInt8
  params : ParamList
  after : List UInt8
  ret_bytes : ∀ c ∈ ret, IsWord c ∨ c = SPACE ∨ c = STAR
  ret_word : ∃ c ∈ ret, IsWord c
  ret_last : ret.getLast? = some SPACE ∨ ret.getLast? = some STAR
  spaces_gap : Spaces gap
  length_lt : (ret ++ (ident.text ++ behindName gap params.text after)).length < usartRecLen

def Prototype.text (p : Prototype) : List UInt8 := p.ret ++ (p.ident.text ++ behindName p.gap p.params.text p.after)

/-- The bytes of a number, with the spaces around them. -/
structure Argument where
  before : List UInt8
  digits : List UInt8
  after : List UInt8
  spaces_before : Spaces before
  spaces_after : Spaces after
  ne_nil : digits ≠ []
  inNumber : ∀ c ∈ digits, InNumber c

theorem InNumber.plain {c : UInt8} (h : InNumber c) : c ≠ LPAR ∧ c ≠ RPAR ∧ c ≠ COMMA ∧ c ≠ QUOTE ∧ c ≠ SPACE :=
  ⟨h.ne (by decide), h.ne (by decide), h.ne (by decide), h.ne (by decide), h.ne (by decide)⟩

def Argument.item (a : Argument) : Item where
  text := a.before ++ a.digits ++ a.after
  plain := by
    intro c hc
    rcases List.mem_append.1 hc with hc | hc
    · rcases List.mem_append.1 hc with hc | hc
      · rw [a.spaces_before c hc]
        decide
      · obtain ⟨hl, hr, hcomma, hq, -⟩ := (a.inNumber c hc).plain
        exact ⟨hl, hr, hcomma, hq⟩
    · rw [a.spaces_after c hc]
      decide
  filled := by
    obtain ⟨c, l, hcl⟩ := List.exists_cons_of_ne_nil a.ne_nil
    have hc : c ∈ a.digits := hcl ▸ List.mem_cons_self
    exact ⟨c, by simp [hc], (a.inNumber c hc).plain.2.2.2.2⟩

/-- A command with numeric arguments. -/
structure Command where
  before : List UInt8
  ident : Ident
  gap : List UInt8
  inner : List UInt8
  args : List Argument
  after : List UInt8
  spaces_before : Spaces before
  spaces_gap : Spaces gap
  spaces_inner : Spaces inner
  spaces_after : Spaces after
  args_le : args.length ≤ maxParm
  length_lt : (before ++ (ident.text ++ behindName gap (inner ++ joined (args.map Argument.item)) after)).length <
    usartRecLen

def Command.text (c : Command) : List UInt8 :=
  c.before ++ (c.ident.text ++ behindName c.gap (c.inner ++ joined (c.args.map Argument.item)) c.after)

/-! ## Where the name starts -/

theorem IsWord.ne {c d : UInt8} (h : IsWord c) (hd : ¬ IsWord d) : c ≠ d := by
  rintro rfl
  exact hd h

/-- The test of the second loop of `usmart_get_fname`: the name may start behind the next byte. -/
def BlankNext (str : List UInt8) : Prop :=
  (str.head? = some SPACE ∨ str.head? = some STAR) ∧ usmartSearchNextc str ≠ some LPAR ∧
    usmartSearchNextc str ≠ some STAR

instance (str : List UInt8) : Decidable (BlankNext str) := inferInstanceAs (Decidable (_ ∧ _))

theorem nameOffset_cons {c : UInt8} (hc : c ≠ LPAR) (res offset : ℕ) (str : List UInt8) :
    nameOffset res offset (c :: str) = nameOffset (res + 1) (if BlankNext str then res + 1 else offset) str := by
  rw [nameOffset, if_neg hc]
  rfl

theorem not_blankNext {str : List UInt8} (hspace : str.head? ≠ some SPACE) (hstar : str.head? ≠ some STAR) :
    ¬ BlankNext str := fun h => h.1.elim hspace hstar

theorem not_blankNext_word {c : UInt8} (hc : IsWord c) (str : List UInt8) : ¬ BlankNext (c :: str) :=
  not_blankNext (by simpa using hc.ne (by decide)) (by simpa using hc.ne (by decide))

section
variable {gap rest : List UInt8} (hgap : Spaces gap)
include hgap

theorem not_blankNext_gap : ¬ BlankNext (gap ++ LPAR :: rest) := by
  cases gap with
  | nil => exact not_blankNext (by simp [LPAR, SPACE]) (by simp [LPAR, STAR])
  | cons c gap =>
    rintro ⟨-, hnext, -⟩
    have hg : ∀ d ∈ gap, decide (d = SPACE) = true := fun d hd =>
      decide_eq_true (hgap d (List.mem_cons_of_mem c hd))
    refine hnext ?_
    rw [usmartSearchNextc, List.cons_append, List.tail_cons, List.dropWhile_append_of_pos hg]
    rfl

theorem nameOffset_gap (res offset : ℕ) : nameOffset res offset (gap ++ LPAR :: rest) = offset := by
  induction gap generalizing res with
  | nil => rw [List.nil_append, nameOffset, if_pos rfl]
  | cons c gap ih =>
    obtain ⟨rfl, hgap'⟩ := List.forall_mem_cons.1 hgap
    rw [List.cons_append, nameOffset_cons (by decide), if_neg (not_blankNext_gap hgap')]
    exact ih hgap' (res + 1)

/-- The name does not move the offset. -/
theorem nameOffset_word (res offset : ℕ) {word : List UInt8} (hword : ∀ c ∈ word, IsWord c) :
    nameOffset res offset (word ++ (gap ++ LPAR :: rest)) = offset := by
  induction word generalizing res with
  | nil => exact nameOffset_gap hgap res offset
  | cons c word ih =>
    obtain ⟨hc, hword'⟩ := List.forall_mem_cons.1 hword
    have htest : ¬ BlankNext (word ++ (gap ++ LPAR :: rest)) := by
      cases word with
      | nil => exact not_blankNext_gap hgap
      | cons d word => exact not_blankNext_word (hword' d List.mem_cons_self) _
    rw [List.cons_append, nameOffset_cons (hc.ne (by decide)), if_neg htest]
    exact ih (res + 1) hword'

/-- The last space or `*` before the name is found. -/
theorem nameOffset_head {b : UInt8} (hb : b = SPACE ∨ b = STAR) {word : List UInt8} (hne : word ≠ [])
    (hword : ∀ c ∈ word, IsWord c) : ∀ (res offset : ℕ) {q : List UInt8}, q ≠ [] → LPAR ∉ q →
    nameOffset res offset (q ++ b :: (word ++ (gap ++ LPAR :: rest))) = res + q.length
  | _, _, [], hq, _ => absurd rfl hq
  | res, offset, [c], _, hlpar => by
    obtain ⟨d, w, rfl⟩ := List.exists_cons_of_ne_nil hne
    have hd := hword d List.mem_cons_self
    have hnext : usmartSearchNextc (b :: (d :: w ++ (gap ++ LPAR :: rest))) = some d := by
      rw [usmartSearchNextc, List.tail_cons, List.cons_append,
        List.dropWhile_cons_of_neg (by simpa using hd.ne (by decide))]
      rfl
    have htest : BlankNext (b :: (d :: w ++ (gap ++ LPAR :: rest))) := by
      refine ⟨by simpa using hb, ?_, ?_⟩
      · rw [hnext]
        simpa using hd.ne (by decide)
      · rw [hnext]
        simpa using hd.ne (by decide)
    have hb' : b ≠ LPAR := by rcases hb with rfl | rfl <;> decide
    have hstay : ¬ BlankNext (d :: w ++ (gap ++ LPAR :: rest)) := not_blankNext_word hd _
    rw [List.singleton_append, nameOffset_cons (fun h => hlpar (h ▸ List.mem_singleton_self c)), if_pos htest,
      nameOffset_cons hb',
      if_neg hstay, nameOffset_word hgap _ _ hword]
    rfl
  | res, offset, c :: e :: q, _, hlpar => by
    obtain ⟨hc, hlpar'⟩ := not_or.1 (mt List.mem_cons.2 hlpar)
    rw [List.cons_append, nameOffset_cons (Ne.symm hc),
      nameOffset_head hb hne hword (res + 1) _ (List.cons_ne_nil e q) hlpar', List.length_cons (a := c)]
    omega

end

/-- What may stand before a name: at most one space, or anything that ends with a space or `*`. -/
inductive Head : List UInt8 → Prop
  | nil : Head []
  | space : Head [SPACE]
  | blank {q b} (hq : q ≠ []) (hlpar : LPAR ∉ q) (hb : b = SPACE ∨ b = STAR) : Head (q ++ [b])

/-- The third loop starts at the name, or at a space before it. -/
theorem start_word {head word gap rest : List UInt8} (hhead : Head head) (hne : word ≠ [])
    (hword : ∀ c ∈ word, IsWord c) (hgap : Spaces gap) {line : List UInt8}
    (hline : line = head ++ (word ++ (gap ++ LPAR :: rest))) : ∃ sp, Spaces sp ∧
      (if nameOffset 0 0 line ≠ 0 then line.drop (nameOffset 0 0 line + 1) else line) =
        sp ++ (word ++ (gap ++ LPAR :: rest)) := by
  subst hline
  cases hhead with
  | nil =>
    refine ⟨[], spaces_nil, ?_⟩
    rw [List.nil_append, nameOffset_word hgap 0 0 hword, if_neg (not_not.2 rfl)]
  | space =>
    refine ⟨[SPACE], fun c hc => List.mem_singleton.1 hc, ?_⟩
    obtain ⟨d, w, rfl⟩ := List.exists_cons_of_ne_nil hne
    have hd := hword d List.mem_cons_self
    have hstay : ¬ BlankNext (d :: w ++ (gap ++ LPAR :: rest)) := not_blankNext_word hd _
    rw [List.singleton_append, nameOffset_cons (by decide), if_neg hstay, nameOffset_word hgap _ _ hword,
      if_neg (not_not.2 rfl)]
  | @blank q b hq hlpar hb =>
    refine ⟨[], spaces_nil, ?_⟩
    have hoffset : nameOffset 0 0 (q ++ [b] ++ (word ++ (gap ++ LPAR :: rest))) = q.length := by
      rw [List.append_assoc, List.singleton_append, nameOffset_head hgap hb hne hword 0 0 hq hlpar, Nat.zero_add]
    have hlen : (q ++ [b]).length = q.length + 1 := by simp
    rw [hoffset, if_pos (mt List.length_eq_zero_iff.1 hq), List.drop_left' hlen]
    rfl

/-! ## The third loop -/

theorem take_take_append (n : ℕ) (a b : List UInt8) : (a.take n ++ b).take n = (a ++ b).take n := by
  rcases Nat.le_total a.length n with h | h
  · rw [List.take_of_length_le h]
  · rw [List.take_append_of_le_length (by simp [h]), List.take_append_of_le_length h, List.take_take, Nat.min_self]

namespace Scan

/-- The name is taken without its spaces. -/
theorem loop_to_list (rest : List UInt8) : ∀ {name f : List UInt8}, (∀ c ∈ name, c ≠ LPAR ∧ c ≠ RPAR ∧ c ≠ QUOTE) →
    (named f).loop (name ++ LPAR :: rest) = (opened (f ++ name.filter (· ≠ SPACE))).loop rest
  | [], f, _ => by
    rw [List.nil_append, loop_open, List.filter_nil, List.append_nil]
  | c :: name, f, h => by
    obtain ⟨⟨hl, hr, hq⟩, hname⟩ := List.forall_mem_cons.1 h
    have hquote : (named f).quote c = named f := by rw [quote, if_neg hq]
    have hstep : (named f).take c = named (f ++ [c].filter (· ≠ SPACE)) := take_name rfl c
    rw [List.cons_append, loop_step _ (fun h => (h.elim hl hr).elim), hquote, hstep, loop_to_list rest hname]
    by_cases hc : c = SPACE <;> simp [hc]

/-- The bytes of the first parameter are kept, at most five. -/
theorem loop_param (l : List UInt8) : ∀ {p : List UInt8} {s : Scan},
    (∀ c ∈ p, c ≠ LPAR ∧ c ≠ RPAR ∧ c ≠ COMMA ∧ c ≠ QUOTE) → s.InList → s.nchar = false → s.pcnt = 0 →
    s.fpname.length ≤ 5 → ∃ s' : Scan, s.loop (p ++ l) = s'.loop l ∧ s'.InList ∧ s'.nchar = false ∧
      s'.fpname = (s.fpname ++ p.filter (· ≠ SPACE)).take 5
  | [], s, _, hs, hn, _, hlen => ⟨s, rfl, hs, hn, by simp [List.take_of_length_le hlen]⟩
  | c :: p, s, h, hs, hn, hpcnt, hlen => by
    obtain ⟨⟨hl, hr, hcomma, hq⟩, hp⟩ := List.forall_mem_cons.1 h
    have hquote : s.quote c = s := by rw [quote, if_neg hq]
    rw [List.cons_append, loop_step _ (fun h => (h.elim hl hr).elim), hquote]
    by_cases hc : c = SPACE
    · rw [take_blank hs (.inl hc)]
      obtain ⟨s', hloop, hs', hn', hfp⟩ := loop_param l hp hs hn hpcnt hlen
      exact ⟨s', hloop, hs', hn', by simpa [hc] using hfp⟩
    · have hblank : ¬ (c = SPACE ∨ c = LPAR) := not_or.2 ⟨hc, hl⟩
      have htake := take_other hs hcomma hblank
      have hn' : (s.take c).nchar = false := (take_frame hs c).1.trans hn
      have hpcnt' : (s.take c).pcnt = 0 := by rw [htake, hpcnt]
      have hfp' : (s.take c).fpname = (s.fpname ++ [c]).take 5 := by
        rw [htake]
        dsimp only
        by_cases hlt : s.fpname.length < 5
        · rw [if_pos ⟨hpcnt, hlt⟩, List.take_of_length_le (by rw [List.length_append]; exact hlt)]
        · rw [if_neg fun h => hlt h.2, List.take_append_of_le_length (Nat.le_of_not_lt hlt),
            List.take_of_length_le hlen]
      have hlen' : (s.take c).fpname.length ≤ 5 := by
        rw [hfp']
        exact List.length_take_le _ _
      obtain ⟨s', hloop, hs', hns', hfps'⟩ := loop_param l hp (hs.take c) hn' hpcnt' hlen'
      refine ⟨s', hloop, hs', hns', ?_⟩
      rw [hfps', hfp', List.filter_cons_of_pos (by simpa using hc)]
      rw [take_take_append, List.append_assoc, List.singleton_append]

end Scan

/-! ## The count of the list -/

/-- What `usmart_get_fname` counts: one parameter that is spelled `void` is none. -/
def countItems : List Item → ℕ
  | [p] => if p.text.filter (· ≠ SPACE) = ascii "void" then 0 else 1
  | ps => ps.length

section
variable {started : Bool} {l : List UInt8}

theorem parts_true_spaces {sp : List UInt8} (hsp : Spaces sp) :
    parts true .outside started (sp ++ l) = parts true .outside started l := by
  induction sp with
  | nil => rfl
  | cons c sp ih =>
    obtain ⟨rfl, hsp'⟩ := List.forall_mem_cons.1 hsp
    rw [List.cons_append, parts_space, ih hsp']

/-- A byte of a part. -/
theorem parts_true_other {c : UInt8} (h : c ≠ LPAR ∧ c ≠ RPAR ∧ c ≠ COMMA ∧ c ≠ QUOTE) (hspace : c ≠ SPACE) :
    parts true .outside started (c :: l) = parts true .outside true l + if started then 0 else 1 := by
  obtain ⟨hl, hr, hcomma, hq⟩ := h
  rw [parts, if_neg fun h => h.1.elim hr fun h' => hl h'.1, if_neg fun h => hcomma h.1, Place.next, if_neg hq]
  cases started with
  | false => rw [if_neg (by simp [hspace, hl]), if_neg Bool.false_ne_true]
  | true => rw [if_pos (.inl rfl), if_pos rfl]; rfl

theorem parts_true_plain {p : List UInt8} (h : ∀ c ∈ p, c ≠ LPAR ∧ c ≠ RPAR ∧ c ≠ COMMA ∧ c ≠ QUOTE) :
    parts true .outside true (p ++ l) = parts true .outside true l := by
  induction p with
  | nil => rfl
  | cons c p ih =>
    obtain ⟨hc, hp⟩ := List.forall_mem_cons.1 h
    by_cases hspace : c = SPACE
    · rw [hspace, List.cons_append, parts_space, ih hp]
    · rw [List.cons_append, parts_true_other hc hspace, ih hp]
      rfl

end

theorem Item.parts (p : Item) (l : List UInt8) :
    parts true .outside false (p.text ++ l) = Usmart.parts true .outside true l + 1 := by
  obtain ⟨text, plain, filled⟩ := p
  induction text with
  | nil =>
    obtain ⟨c, hc, -⟩ := filled
    cases hc
  | cons c text ih =>
    obtain ⟨hc, htext⟩ := List.forall_mem_cons.1 plain
    by_cases hspace : c = SPACE
    · obtain ⟨d, hd, hne⟩ := filled
      have hmem : d ∈ text := (List.mem_cons.1 hd).resolve_left fun h => hne (h.trans hspace)
      show Usmart.parts true .outside false (c :: (text ++ l)) = _
      rw [hspace, parts_space]
      exact ih htext ⟨d, hmem, hne⟩
    · show Usmart.parts true .outside false (c :: (text ++ l)) = _
      rw [parts_true_other hc hspace, parts_true_plain htext]
      rfl

/-- **The parts of a list are its items.** -/
theorem parts_joined (after : List UInt8) : ∀ items : List Item,
    parts true .outside false (joined items ++ RPAR :: after) = items.length
  | [] => by
    rw [joined, List.nil_append, parts, if_pos ⟨.inl rfl, .inl rfl⟩]
    rfl
  | [p] => by
    rw [joined, p.parts, parts, if_pos ⟨.inl rfl, .inl rfl⟩]
    rfl
  | p :: q :: ps => by
    have hcomma : parts true .outside true (COMMA :: (joined (q :: ps) ++ RPAR :: after)) =
        parts true .outside false (joined (q :: ps) ++ RPAR :: after) := by
      rw [parts, if_neg fun h => absurd h.1 (by decide), if_pos ⟨rfl, .inl rfl⟩]
      rfl
    rw [joined, List.append_assoc, p.parts, List.cons_append, hcomma, parts_joined after (q :: ps)]
    rfl

theorem joined_unparen {c : UInt8} : ∀ {items : List Item}, c ∈ joined items → c ≠ LPAR ∧ c ≠ RPAR ∧ c ≠ QUOTE
  | [], h => absurd h List.not_mem_nil
  | [p], h => by
    obtain ⟨hl, hr, -, hq⟩ := p.plain c h
    exact ⟨hl, hr, hq⟩
  | p :: q :: ps, h => by
    rcases List.mem_append.1 h with h | h
    · obtain ⟨hl, hr, -, hq⟩ := p.plain c h
      exact ⟨hl, hr, hq⟩
    rcases List.mem_cons.1 h with rfl | h
    · decide
    · exact joined_unparen h

theorem rightParens_unparen (after : List UInt8) : ∀ {text : List UInt8},
    (∀ c ∈ text, c ≠ LPAR ∧ c ≠ RPAR ∧ c ≠ QUOTE) →
    RightParens .outside false (text ++ RPAR :: after)
  | [], _ => by
    rw [List.nil_append, RightParens, if_pos ⟨.inl rfl, .inl rfl⟩]
    exact ⟨rfl, fun h => absurd h (by decide)⟩
  | c :: text, h => by
    obtain ⟨⟨hl, hr, hq⟩, htext⟩ := List.forall_mem_cons.1 h
    rw [List.cons_append, RightParens, if_neg fun h => h.1.elim hr hl, if_neg hq, Place.next, if_neg hq]
    exact ⟨fun h => (h.elim hr hl).elim, rightParens_unparen after htext⟩

/-- A list without parentheses is well formed. -/
theorem loop_unparen (after : List UInt8) : ∀ {text : List UInt8} {s : Scan}, s.InList → s.nchar = false →
    (∀ c ∈ text, c ≠ LPAR ∧ c ≠ RPAR ∧ c ≠ QUOTE) →
    (s.loop (text ++ RPAR :: after)).1 = .ok ∧ (s.loop (text ++ RPAR :: after)).2.fname = s.fname
  | [], s, hs, hn, _ => by
    rw [List.nil_append, Scan.loop_end hs hn]
    exact ⟨rfl, rfl⟩
  | c :: text, s, hs, hn, h => by
    obtain ⟨⟨hl, hr, hq⟩, htext⟩ := List.forall_mem_cons.1 h
    have hquote : s.quote c = s := by rw [Scan.quote, if_neg hq]
    obtain ⟨hn', hfname⟩ := Scan.take_frame hs c
    rw [List.cons_append, Scan.loop_step _ fun h => (h.elim hl hr).elim, hquote]
    obtain ⟨hok, hfname'⟩ := loop_unparen after (hs.take c) (hn'.trans hn) htext
    exact ⟨hok, hfname'.trans hfname⟩

/-! ## What is extracted -/

theorem take_eq_iff {n : ℕ} {x v : List UInt8} (hv : v.length < n) : x.take n = v ↔ x = v := by
  refine ⟨fun h => ?_, fun h => by rw [h, List.take_of_length_le (Nat.le_of_lt hv)]⟩
  have hlen := congrArg List.length h
  rw [List.length_take] at hlen
  rwa [List.take_of_length_le (by omega)] at h

theorem Spaces.filter {sp : List UInt8} (hsp : Spaces sp) : sp.filter (· ≠ SPACE) = [] :=
  List.filter_eq_nil_iff.2 fun c hc => by simp [hsp c hc]

theorem Ident.filter (ident : Ident) : ident.text.filter (· ≠ SPACE) = ident.text :=
  List.filter_eq_self.2 fun c hc => decide_eq_true ((ident.isWord c hc).ne (by decide))

theorem Spaces.unparen {sp : List UInt8} (hsp : Spaces sp) : ∀ c ∈ sp, c ≠ LPAR ∧ c ≠ RPAR ∧ c ≠ QUOTE := by
  intro c hc
  rw [hsp c hc]
  decide

theorem Spaces.plain {sp : List UInt8} (hsp : Spaces sp) :
    ∀ c ∈ sp, c ≠ LPAR ∧ c ≠ RPAR ∧ c ≠ COMMA ∧ c ≠ QUOTE := by
  intro c hc
  rw [hsp c hc]
  decide

theorem Ident.unparen (ident : Ident) : ∀ c ∈ ident.text, c ≠ LPAR ∧ c ≠ RPAR ∧ c ≠ QUOTE := by
  intro c hc
  have hword := ident.isWord c hc
  exact ⟨hword.ne (by decide), hword.ne (by decide), hword.ne (by decide)⟩

/-- The name is taken, with the spaces around it. -/
theorem loop_ident {sp gap : List UInt8} (hsp : Spaces sp) (ident : Ident) (hgap : Spaces gap) (rest : List UInt8) :
    Scan.start.loop (sp ++ (ident.text ++ (gap ++ LPAR :: rest))) = (Scan.opened ident.text).loop rest := by
  have hname : ∀ c ∈ sp ++ (ident.text ++ gap), c ≠ LPAR ∧ c ≠ RPAR ∧ c ≠ QUOTE :=
    List.forall_mem_append.2 ⟨hsp.unparen, List.forall_mem_append.2 ⟨ident.unparen, hgap.unparen⟩⟩
  have hfilter : (sp ++ (ident.text ++ gap)).filter (· ≠ SPACE) = ident.text := by
    rw [List.filter_append, List.filter_append, hsp.filter, ident.filter, hgap.filter, List.append_nil, List.nil_append]
  have h := Scan.loop_to_list rest (f := []) hname
  rwa [hfilter, List.append_assoc, List.append_assoc] at h

/-- The items are counted, and the list is well formed. -/
theorem loop_items {inner : List UInt8} (hinner : Spaces inner) (ident : Ident) (items : List Item)
    (after : List UInt8) :
    ((Scan.opened ident.text).loop (inner ++ joined items ++ RPAR :: after)).1 = .ok ∧
      ((Scan.opened ident.text).loop (inner ++ joined items ++ RPAR :: after)).2.fname = ident.text ∧
      ((Scan.opened ident.text).loop (inner ++ joined items ++ RPAR :: after)).2.parmnum = items.length := by
  have hlist : ∀ c ∈ inner ++ joined items, c ≠ LPAR ∧ c ≠ RPAR ∧ c ≠ QUOTE :=
    List.forall_mem_append.2 ⟨hinner.unparen, fun c => joined_unparen⟩
  have hin : (Scan.opened ident.text).InList := ⟨rfl, .inl rfl⟩
  obtain ⟨hok, hfname⟩ := loop_unparen after hin rfl hlist
  have hnum := Scan.loop_list (p := .outside) hin (fun h => by cases h) (rightParens_unparen after hlist)
  refine ⟨hok, hfname, hnum.trans ?_⟩
  rw [List.append_assoc]
  show 0 + parts true .outside false _ = _
  rw [parts_true_spaces hinner, parts_joined, Nat.zero_add]

/-- The first parameter that is kept, if it is the only one. -/
theorem loop_single {name inner after : List UInt8} (hinner : Spaces inner) (p : Item) :
    ((Scan.opened name).loop (inner ++ p.text ++ RPAR :: after)).2.fpname = (p.text.filter (· ≠ SPACE)).take 5 := by
  have hplain : ∀ c ∈ inner ++ p.text, c ≠ LPAR ∧ c ≠ RPAR ∧ c ≠ COMMA ∧ c ≠ QUOTE :=
    List.forall_mem_append.2 ⟨hinner.plain, p.plain⟩
  have hin : (Scan.opened name).InList := ⟨rfl, .inl rfl⟩
  obtain ⟨s', hloop, hs', hn, hfp⟩ := Scan.loop_param (RPAR :: after) hplain hin rfl rfl (Nat.zero_le 5)
  rw [hloop, Scan.loop_end hs' hn]
  rw [List.filter_append, hinner.filter] at hfp
  exact hfp

theorem countItems_of_length {items : List Item} (h : items.length ≠ 1) : countItems items = items.length := by
  match items with
  | [] => rfl
  | [p] => exact absurd rfl h
  | p :: q :: ps => rfl

/-- **The name and the count** of a prototype or a command. -/
theorem getFname_shape {head gap inner after : List UInt8} {ident : Ident} {items : List Item} (hhead : Head head)
    (hgap : Spaces gap) (hinner : Spaces inner) {line : List UInt8}
    (hline : line = head ++ (ident.text ++ behindName gap (inner ++ joined items) after)) :
    (usmartGetFname line).sta = .ok ∧ (usmartGetFname line).fname = ident.text ∧
      (usmartGetFname line).pnum = countItems items := by
  obtain ⟨sp, hsp, hstart⟩ := start_word hhead ident.ne_nil ident.isWord hgap hline
  have hloop := loop_ident hsp ident hgap (inner ++ joined items ++ RPAR :: after)
  obtain ⟨hok, hfname, hcount⟩ := loop_items hinner ident items after
  simp only [usmartGetFname, hstart, hloop, hcount]
  refine ⟨hok, hfname, ?_⟩
  by_cases hone : items.length = 1
  · obtain ⟨p, rfl⟩ := List.length_eq_one_iff.1 hone
    have hvoid : (p.text.filter (· ≠ SPACE)).take 5 = ascii "void" ↔ p.text.filter (· ≠ SPACE) = ascii "void" :=
      take_eq_iff (by decide)
    simp only [joined, loop_single hinner, hvoid, hone, true_and, countItems]
  · rw [if_neg fun h => hone h.1, countItems_of_length hone]

theorem Prototype.head (p : Prototype) : Head p.ret := by
  obtain ⟨b, hlast, hb⟩ : ∃ b, p.ret.getLast? = some b ∧ (b = SPACE ∨ b = STAR) := by
    rcases p.ret_last with h | h
    · exact ⟨_, h, .inl rfl⟩
    · exact ⟨_, h, .inr rfl⟩
  obtain ⟨q, hq⟩ := List.getLast?_eq_some_iff.1 hlast
  rw [hq]
  refine .blank ?_ (fun hmem => ?_) hb
  · rintro rfl
    obtain ⟨c, hc, hword⟩ := p.ret_word
    rw [hq] at hc
    obtain rfl := List.mem_singleton.1 hc
    rcases hb with rfl | rfl
    · exact absurd hword (by decide)
    · exact absurd hword (by decide)
  · have hbyte := p.ret_bytes LPAR (hq ▸ List.mem_append_left [b] hmem)
    exact absurd hbyte (by decide)

theorem Spaces.head {sp : List UInt8} (hsp : Spaces sp) : Head sp := by
  rcases List.eq_nil_or_concat' sp with rfl | ⟨q, b, rfl⟩
  · exact .nil
  obtain rfl : b = SPACE := hsp b (by simp)
  by_cases hq : q = []
  · rw [hq]
    exact .space
  · exact .blank hq (fun h => absurd (hsp LPAR (List.mem_append_left _ h)) (by decide)) (.inl rfl)

theorem void_plain : ∀ c ∈ ascii "void", c ≠ LPAR ∧ c ≠ RPAR ∧ c ≠ COMMA ∧ c ≠ QUOTE :=
  forall_mem_of_all (by decide)

namespace ParamList

/-- The items of a list, and the spaces of an empty one. -/
def items : ParamList → List Item
  | empty _ _ => []
  | void before after hbefore hafter => [{
      text := before ++ ascii "void" ++ after
      plain := by
        intro c hc
        rcases List.mem_append.1 hc with hc | hc
        · rcases List.mem_append.1 hc with hc | hc
          · rw [hbefore c hc]
            decide
          · exact void_plain c hc
        · rw [hafter c hc]
          decide
      filled := ⟨0x76, by simp [ascii], by decide⟩ }]
  | params ps _ _ _ => ps

def inner : ParamList → List UInt8
  | empty inner _ => inner
  | _ => []

theorem spaces_inner (l : ParamList) : Spaces l.inner := by
  cases l with
  | empty inner h => exact h
  | void | params => exact spaces_nil

theorem text_eq (l : ParamList) : l.text = l.inner ++ joined l.items := by
  cases l with
  | empty inner h => exact (List.append_nil _).symm
  | void | params => rfl

/-- **The count is right** but for a disguised list. -/
theorem countItems_eq_iff (l : ParamList) : countItems l.items = l.declared ↔ ¬ l.Disguised := by
  cases l with
  | empty => exact iff_of_true rfl id
  | void before after hbefore hafter =>
    have hfilter : (before ++ ascii "void" ++ after).filter (· ≠ SPACE) = ascii "void" := by
      rw [List.filter_append, List.filter_append, hbefore.filter, hafter.filter, List.append_nil, List.nil_append]
      decide
    exact iff_of_true (if_pos hfilter) id
  | params ps hpos hmax hvoid =>
    match ps with
    | [] => exact absurd rfl hpos
    | [p] =>
      rw [items, countItems, declared, Disguised]
      by_cases h : p.text.filter (· ≠ SPACE) = ascii "void"
      · rw [if_pos h]
        exact iff_of_false Nat.zero_ne_one (not_not.2 h)
      · rw [if_neg h]
        exact iff_of_true rfl h
    | p :: q :: ps => exact iff_of_true rfl id

end ParamList

/-! ## The selection -/

/-- `usmart_get_fname` extracts the name and the number of the parameters, inside of its buffers. -/
structure Extracts (text : List UInt8) (ident : Ident) (n : ℕ) : Prop where
  bounded : NameBounded text
  sta : (usmartGetFname text).sta = .ok
  fname : (usmartGetFname text).fname = ident.text
  pnum : (usmartGetFname text).pnum = n

theorem Prototype.extracts (p : Prototype) : Extracts p.text p.ident (countItems p.params.items) := by
  have hline : p.text =
      p.ret ++ (p.ident.text ++ behindName p.gap (p.params.inner ++ joined p.params.items) p.after) := by
    rw [← p.params.text_eq]
    rfl
  obtain ⟨hsta, hfname, hnum⟩ := getFname_shape p.head p.spaces_gap p.params.spaces_inner hline
  exact ⟨nameBounded_of_fname p.length_lt (hfname ▸ p.ident.short), hsta, hfname, hnum⟩

/-- No number is spelled with a `v`. -/
theorem Argument.filter_ne_void (a : Argument) : a.item.text.filter (· ≠ SPACE) ≠ ascii "void" := by
  intro h
  have hv : (0x76 : UInt8) ∈ a.item.text.filter (· ≠ SPACE) := by
    rw [h]
    decide
  rcases List.mem_append.1 (List.mem_filter.1 hv).1 with hv | hv
  · rcases List.mem_append.1 hv with hv | hv
    · exact absurd (a.spaces_before _ hv) (by decide)
    · exact absurd (a.inNumber _ hv) (by decide)
  · exact absurd (a.spaces_after _ hv) (by decide)

theorem Command.extracts (c : Command) : Extracts c.text c.ident c.args.length := by
  have hline : c.text = c.before ++ (c.ident.text ++
      behindName c.gap (c.inner ++ joined (c.args.map Argument.item)) c.after) := rfl
  obtain ⟨hsta, hfname, hnum⟩ := getFname_shape c.spaces_before.head c.spaces_gap c.spaces_inner hline
  refine ⟨nameBounded_of_fname c.length_lt (hfname ▸ c.ident.short), hsta, hfname, hnum.trans ?_⟩
  rcases hargs : c.args with _ | ⟨a, _ | ⟨b, as⟩⟩
  · rfl
  · exact if_neg a.filter_ne_void
  · simp [countItems]

/-- The first line of the table with this identifier. -/
structure IsFirst (table : List Prototype) (ident : Ident) (k : ℕ) (p : Prototype) : Prop where
  getElem : table[k]? = some p
  ident_eq : p.ident.text = ident.text
  before : ∀ j < k, ∀ q, table[j]? = some q → q.ident.text ≠ ident.text

theorem findFun_none {r : Fname} {ident : Ident} (hr : r.fname = ident.text) : ∀ {table : List Prototype} (i : ℕ),
    (∀ p ∈ table, p.ident.text ≠ ident.text) → findFun r i (table.map Prototype.text) = .error .noFuncFind
  | [], _, _ => rfl
  | p :: table, i, h => by
    obtain ⟨hp, htable⟩ := List.forall_mem_cons.1 h
    have hextracts := p.extracts
    rw [List.map_cons, findFun]
    rw [if_neg (not_not.2 hextracts.sta), hextracts.fname, hr, if_neg hp]
    exact findFun_none hr (i + 1) htable

theorem findFun_first {r : Fname} {ident : Ident} (hr : r.fname = ident.text) : ∀ {table : List Prototype} {k : ℕ}
    {p : Prototype} (i : ℕ), IsFirst table ident k p → findFun r i (table.map Prototype.text) =
      if countItems p.params.items > r.pnum then .error .parmErr else .ok (i + k)
  | [], k, p, _, h => by
    have hget := h.getElem
    simp at hget
  | q :: table, 0, p, i, h => by
    obtain rfl := Option.some.inj h.getElem
    have hextracts := q.extracts
    rw [List.map_cons, findFun]
    rw [if_neg (not_not.2 hextracts.sta), hextracts.fname, hr, if_pos h.ident_eq, hextracts.pnum]
    rfl
  | q :: table, k + 1, p, i, h => by
    have hq := h.before 0 (Nat.succ_pos k) q rfl
    have hrest : IsFirst table ident k p := ⟨h.getElem, h.ident_eq, fun j hj => h.before (j + 1) (Nat.succ_lt_succ hj)⟩
    have hextracts := q.extracts
    rw [List.map_cons, findFun]
    rw [if_neg (not_not.2 hextracts.sta), hextracts.fname, hr, if_neg hq, findFun_first hr (i + 1) hrest,
      Nat.add_assoc, Nat.add_comm 1]

theorem isFirst_take {table : List Prototype} {ident : Ident} {n k : ℕ} {p : Prototype} (h : IsFirst table ident k p)
    (hk : k < n) : IsFirst (table.take n) ident k p where
  getElem := by rw [List.getElem?_take_of_lt hk, h.getElem]
  ident_eq := h.ident_eq
  before j hj q hq := by
    rw [List.getElem?_take_of_lt (Nat.lt_trans hj hk)] at hq
    exact h.before j hj q hq

/-! ## The parameters of a command -/

/-- A string that is not closed begins with a quote. -/
theorem OpenAfter.quote_mem {k : ℕ} {list : List UInt8} (h : OpenAfter k list) : QUOTE ∈ list := by
  induction h with
  | here h =>
    obtain ⟨p, s, -, -, rfl⟩ := h
    simp
  | string => simp
  | number hp hn hq hu h ih => simp [ih]
  | nothing hp hq hu h ih => simp [ih]

theorem Reading.stored_id {r : Reading} {d d' : Dev} {n m : ℕ} {sta : Status} (h : r.stored d n = some (sta, d', m)) :
    d'.id = d.id ∧ sta ≠ .noFuncFind := by
  rw [stored] at h
  split_ifs at h
  · obtain ⟨sta', hsta, heq⟩ := Option.map_eq_some_iff.1 h
    cases heq
    refine ⟨Dev.storeAll_id _ _ _, ?_⟩
    rintro rfl
    rcases hend : r.ending with _ | _ | _ | _ <;> rw [hend] at hsta <;> cases hsta
  · cases h
    exact ⟨Dev.storeAll_id _ _ _, by decide⟩

theorem Command.noQuote (c : Command) : QUOTE ∉ c.inner ++ joined (c.args.map Argument.item) ++ RPAR :: c.after := by
  intro h
  rcases List.mem_append.1 h with h | h
  · rcases List.mem_append.1 h with h | h
    · exact absurd (c.spaces_inner _ h) (by decide)
    · exact (joined_unparen h).2.2 rfl
  rcases List.mem_cons.1 h with h | h
  · cases h
  · exact absurd (c.spaces_after _ h) (by decide)

/-- `usmart_get_fparam` returns, and leaves the id as it is. -/
theorem Command.getFparam (c : Command) (d : Dev) : ∃ sta d' n, usmartGetFparam d c.text = some (sta, d', n) ∧
    d'.id = d.id ∧ sta ≠ .noFuncFind := by
  have hname : LPAR ∉ c.before ++ (c.ident.text ++ c.gap) := by
    intro h
    rcases List.mem_append.1 h with h | h
    · exact absurd (c.spaces_before _ h) (by decide)
    rcases List.mem_append.1 h with h | h
    · exact absurd (c.ident.isWord _ h) (by decide)
    · exact absurd (c.spaces_gap _ h) (by decide)
  have htext : c.text = c.before ++ (c.ident.text ++ c.gap) ++
      LPAR :: (c.inner ++ joined (c.args.map Argument.item) ++ RPAR :: c.after) := by
    simp [Command.text, behindName]
  have hfind := findList_eq (c.inner ++ joined (c.args.map Argument.item) ++ RPAR :: c.after) hname
  rw [← htext] at hfind
  have hsome : (usmartGetFparam d c.text).isSome := by
    rw [usmartGetFparam, hfind]
    exact fparamLoop_isSome d.clear fun k _ hopen => c.noQuote hopen.quote_mem
  obtain ⟨⟨sta, d', n⟩, hres⟩ := Option.isSome_iff_exists.1 hsome
  rw [fparam_eq] at hres
  obtain ⟨hid, hsta⟩ := Reading.stored_id hres
  exact ⟨sta, d', n, (fparam_eq d c.text).trans hres, hid, hsta⟩

/-- The names and the counts are extracted, and the first function with the name is selected. -/
structure Dispatches (table : List Prototype) (c : Command) : Prop where
  prototypes : ∀ p ∈ table, Extracts p.text p.ident p.params.declared
  line : Extracts c.text c.ident c.args.length
  notFound : (∀ p ∈ table, p.ident.text ≠ c.ident.text) → ∀ d,
    usmartCmdRecIn (table.map Prototype.text) d c.text = some (.noFuncFind, d)
  tooFew : ∀ k p, IsFirst table c.ident k p → c.args.length < p.params.declared → ∀ d,
    usmartCmdRecIn (table.map Prototype.text) d c.text = some (.parmErr, d)
  selected : ∀ k p, IsFirst table c.ident k p → p.params.declared ≤ c.args.length → ∀ d, ∃ sta d',
    usmartCmdRecIn (table.map Prototype.text) d c.text = some (sta, d') ∧ sta ≠ .noFuncFind ∧ d'.id = k

section
variable (table : List Prototype) (c : Command) (d : Dev)

/-- `fnum` of the lines. -/
theorem take_fnum : (table.map Prototype.text).take (UInt8.ofNat (table.map Prototype.text).length).toNat =
    (table.take (table.length % 256)).map Prototype.text := by
  rw [UInt8.toNat_ofNat', List.length_map, List.map_take]

theorem cmdRecIn_notFound (h : ∀ p ∈ table.take (table.length % 256), p.ident.text ≠ c.ident.text) :
    usmartCmdRecIn (table.map Prototype.text) d c.text = some (.noFuncFind, d) := by
  have hfun := findFun_none c.extracts.fname 0 h
  simp only [usmartCmdRecIn, take_fnum, hfun]
  exact if_neg (not_not.2 c.extracts.sta)

theorem cmdRecIn_tooFew {k : ℕ} {p : Prototype} (h : IsFirst table c.ident k p) (hk : k < table.length % 256)
    (hfew : c.args.length < countItems p.params.items) :
    usmartCmdRecIn (table.map Prototype.text) d c.text = some (.parmErr, d) := by
  have hfun := findFun_first c.extracts.fname 0 (isFirst_take h hk)
  rw [c.extracts.pnum, if_pos hfew] at hfun
  simp only [usmartCmdRecIn, take_fnum, hfun]
  exact if_neg (not_not.2 c.extracts.sta)

theorem cmdRecIn_selected {k : ℕ} {p : Prototype} (h : IsFirst table c.ident k p) (hk : k < table.length % 256)
    (henough : countItems p.params.items ≤ c.args.length) : ∃ sta d',
      usmartCmdRecIn (table.map Prototype.text) d c.text = some (sta, d') ∧ sta ≠ .noFuncFind ∧ d'.id = k := by
  have hfun := findFun_first c.extracts.fname 0 (isFirst_take h hk)
  rw [c.extracts.pnum, if_neg (Nat.not_lt.2 henough), Nat.zero_add] at hfun
  obtain ⟨sta, d', n, hparam, hid, hsta⟩ := c.getFparam { d with id := k }
  simp only [usmartCmdRecIn, take_fnum, hfun, hparam]
  rw [if_neg (not_not.2 c.extracts.sta)]
  by_cases hok : sta = .ok
  · rw [if_neg (not_not.2 hok)]
    exact ⟨_, _, rfl, by decide, hid⟩
  · rw [if_pos hok]
    exact ⟨_, _, rfl, hsta, hid⟩

end

/-- **The function that is named is selected** if and only if no list in the table is disguised, and the first
line with the name is among those that `fnum` counts. -/
theorem dispatches_iff (table : List Prototype) (c : Command) : Dispatches table c ↔
    (∀ p ∈ table, ¬ p.params.Disguised) ∧ ∀ k p, IsFirst table c.ident k p → k < table.length % 256 := by
  constructor
  · intro h
    have hdeclared : ∀ p ∈ table, countItems p.params.items = p.params.declared := fun p hp =>
      p.extracts.pnum.symm.trans (h.prototypes p hp).pnum
    refine ⟨fun p hp => p.params.countItems_eq_iff.1 (hdeclared p hp), fun k p hfirst => ?_⟩
    by_contra hover
    have hbefore : ∀ q ∈ table.take (table.length % 256), q.ident.text ≠ c.ident.text := by
      intro q hq
      obtain ⟨j, hj, hget⟩ := List.mem_take_iff_getElem.1 hq
      refine hfirst.before j (by omega) q ?_
      rw [← hget]
      exact List.getElem?_eq_getElem _
    have hrun := cmdRecIn_notFound table c Dev.initial hbefore
    rcases Nat.lt_or_ge c.args.length p.params.declared with hfew | henough
    · rw [h.tooFew k p hfirst hfew] at hrun
      cases hrun
    · obtain ⟨sta, d', hres, hsta, -⟩ := h.selected k p hfirst henough Dev.initial
      rw [hres] at hrun
      exact hsta (Prod.mk.inj (Option.some.inj hrun)).1
  · rintro ⟨hplain, hcounted⟩
    have hdeclared : ∀ p ∈ table, countItems p.params.items = p.params.declared := fun p hp =>
      p.params.countItems_eq_iff.2 (hplain p hp)
    have hmem : ∀ {k p}, IsFirst table c.ident k p → p ∈ table := fun h => List.mem_of_getElem? h.getElem
    refine ⟨fun p hp => hdeclared p hp ▸ p.extracts, c.extracts, fun h d => ?_, fun k p h hfew d => ?_,
      fun k p h henough d => ?_⟩
    · exact cmdRecIn_notFound table c d fun p hp => h p (List.mem_of_mem_take hp)
    · exact cmdRecIn_tooFew table c d h (hcounted k p h) (hdeclared p (hmem h) ▸ hfew)
    · exact cmdRecIn_selected table c d h (hcounted k p h) (hdeclared p (hmem h) ▸ henough)

theorem not_isVoid : ¬ IsVoid (ascii "v oid") := by
  rintro ⟨a, b, -, -, h⟩
  have hinfix : ascii "void" <:+: ascii "v oid" := ⟨a, b, h.symm⟩
  revert hinfix
  decide

/-- A function `f`. -/
def identF : Ident where
  text := ascii "f"
  ne_nil := by decide
  isWord := forall_mem_of_all (by decide)
  short := by decide

/-- A parameter `oid` of a type `v`. -/
def disguised : Prototype where
  ret := ascii "u8 "
  ident := identF
  gap := []
  params := .params [⟨ascii "v oid", forall_mem_of_all (by decide), 0x76, List.mem_cons_self, by decide⟩]
    (List.cons_ne_nil _ _) (by decide) fun p hp => (List.cons.inj hp).1 ▸ not_isVoid
  after := []
  ret_bytes := forall_mem_of_all (by decide)
  ret_word := ⟨0x75, List.mem_cons_self, by decide⟩
  ret_last := by decide
  spaces_gap := spaces_nil
  length_lt := by decide

/-- `f()`. -/
def callF : Command where
  before := []
  ident := identF
  gap := []
  inner := []
  args := []
  after := []
  spaces_before := spaces_nil
  spaces_gap := spaces_nil
  spaces_inner := spaces_nil
  spaces_after := spaces_nil
  args_le := by decide
  length_lt := by decide

/-- The parameter is not counted. -/
theorem not_dispatches : ¬ ∀ (table : List Prototype) (c : Command), Dispatches table c := by
  intro h
  have hone : (usmartGetFname disguised.text).pnum = 1 :=
    ((h [disguised] callF).prototypes disguised List.mem_cons_self).pnum
  have hzero : (usmartGetFname disguised.text).pnum = 0 := by decide +kernel
  rw [hzero] at hone
  cases hone

end DataRecorder.Usmart
