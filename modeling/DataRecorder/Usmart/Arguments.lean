/-
  The arguments of a command (the decoding in `usmart_exe` in `USMART/usmart.c`).

  `usmart_exe` takes argument `i` from the type map, the length table and the buffer
  that `usmart_get_fparam` has filled.

  * `readList_typed`: the parameters of a list as it is typed are read back;
  * `fparam_typed`: each argument is the number that was typed, or points to the
    string that was typed.
-/
import DataRecorder.Usmart.Fparam

namespace DataRecorder.Usmart

open Base

/-! ## The code -/

/-- `*(u32*)`: a number in memory. -/
def word (l : List UInt8) : UInt32 := UInt32.ofNat (l.foldr (fun b n => n * 256 + b.toNat) 0)

/-- An argument: a number, or the address of a string in `parm`. -/
inductive Arg where
  | val (v : UInt32)
  | ptr (pos : ℕ)
  deriving DecidableEq

instance (d : Dev) (i : ℕ) : Decidable (d.IsStr i) := inferInstanceAs (Decidable (_ ≠ _))

/-- `temp[i]` of `usmart_exe`. -/
def Dev.temp (d : Dev) (i : ℕ) : Arg :=
  let pos := (d.usmartGetParmpos i).toNat
  if d.IsStr i then .ptr pos else .val (word (slice d.parm pos 4))

/-! ## What is decoded -/

theorem word_wordBytes (v : UInt32) : word (wordBytes v) = v := by
  have h₀ : v.toUInt8.toNat = v.toNat % 256 := UInt32.toNat_toUInt8 v
  have h₁ : (v >>> 8).toUInt8.toNat = v.toNat / 256 % 256 := by
    simp [Nat.shiftRight_eq_div_pow]
  have h₂ : (v >>> 16).toUInt8.toNat = v.toNat / 65536 % 256 := by
    simp [Nat.shiftRight_eq_div_pow]
  have h₃ : (v >>> 24).toUInt8.toNat = v.toNat / 16777216 % 256 := by
    simp [Nat.shiftRight_eq_div_pow]
  have hlt : v.toNat < 4294967296 := v.toNat_lt
  have hsum : (wordBytes v).foldr (fun b n => n * 256 + b.toNat) 0 = v.toNat := by
    rw [wordBytes]
    simp only [List.foldr_cons, List.foldr_nil, h₀, h₁, h₂, h₃]
    omega
  rw [word, hsum, UInt32.ofNat_toNat]

theorem flatMap_bytes_length (ps : List Param) : (ps.flatMap Param.bytes).length = total ps := by
  simp [total, List.length_flatMap]

/-- The bytes of parameter `i`. -/
theorem Stored.slot {d : Dev} {ps : List Param} (h : Stored d ps) (htotal : total ps < 256) {i : ℕ}
    (hi : i < ps.length) : slice d.parm (d.usmartGetParmpos i).toNat ps[i].bytes.length = ps[i].bytes := by
  have hsplit : ps = ps.take i ++ ([ps[i]] ++ ps.drop (i + 1)) := by
    rw [List.singleton_append, List.getElem_cons_drop, List.take_append_drop]
  have hmem := h.memory
  rw [(h.pos htotal (Nat.le_of_lt hi)).2]
  generalize ps[i] = p at hsplit ⊢
  generalize ps.take i = qs at hsplit ⊢
  have hone : total [p] = p.bytes.length := by simp [total]
  rw [hsplit, total_append, total_append, slice_add, slice_add, List.flatMap_append, List.flatMap_append,
    Nat.zero_add] at hmem
  have hrest := (List.append_inj hmem (by rw [slice_length, flatMap_bytes_length])).2
  have hslot := (List.append_inj hrest (by rw [slice_length, flatMap_bytes_length])).1
  rwa [hone, List.flatMap_singleton] at hslot

/-- A NUL-terminated string in `parm`. -/
def Dev.StringAt (d : Dev) (pos : ℕ) (s : List UInt8) : Prop :=
  slice d.parm pos (s.length + 1) = s ++ [0] ∧ 0 ∉ s

/-- The argument is the parameter: the number, or the address of the string. -/
def Dev.Yields (d : Dev) (i : ℕ) : Param → Prop
  | .num v => d.temp i = .val v
  | .str s => ∃ pos, d.temp i = .ptr pos ∧ d.StringAt pos s

theorem Stored.yields {d : Dev} {ps : List Param} (h : Stored d ps) (htotal : total ps < 256) {i : ℕ}
    (hi : i < ps.length) (hnul : ∀ s, ps[i] = .str s → 0 ∉ s) : d.Yields i ps[i] := by
  have hslot := h.slot htotal hi
  have htype := h.types i hi
  generalize ps[i] = p at hslot htype hnul ⊢
  cases p with
  | num v =>
    have hnum : ¬ d.IsStr i := by
      rw [htype]
      rintro ⟨s, hs⟩
      cases hs
    have hword : slice d.parm (d.usmartGetParmpos i).toNat 4 = wordBytes v := hslot
    show d.temp i = .val v
    rw [Dev.temp, if_neg hnum, hword, word_wordBytes]
  | str s =>
    have hlen : (Param.str s).bytes.length = s.length + 1 := by simp [Param.bytes]
    rw [hlen] at hslot
    exact ⟨_, if_pos (htype.2 ⟨s, rfl⟩), hslot, hnul s rfl⟩

/-! ## Reading what is typed -/

/-- A parameter with the spaces around it. -/
structure Field where
  before : List UInt8
  typed : Typed
  after : List UInt8
  spaces_before : Spaces before
  spaces_after : Spaces after

def Field.text (f : Field) : List UInt8 := f.before ++ f.typed.text ++ f.after

/-- The parameters as they are typed, with a comma between two of them. -/
def typedList : List Field → List UInt8
  | [] => []
  | [f] => f.text
  | f :: g :: fs => f.text ++ COMMA :: typedList (g :: fs)

/-- What a parameter stands for. -/
def Typed.param : Typed → Param
  | number x _ _ => .num (UInt32.ofInt x.value)
  | string items => .str (items.map StrItem.byte)

def Field.param (f : Field) : Param := f.typed.param

/-- A parameter begins here. -/
def Begins : List UInt8 → Prop
  | [] => False
  | c :: _ => InNumber c ∨ c = QUOTE

theorem Typed.begins (p : Typed) (s : List UInt8) : Begins (p.text ++ s) := by
  cases p with
  | number x typed h =>
    have hne : typed ≠ [] := by
      rintro rfl
      have hnil : x.text = [] := h.symm
      simp [Number.text, x.digits_ne_nil] at hnil
    obtain ⟨c, l, rfl⟩ := List.exists_cons_of_ne_nil hne
    exact .inl (inNumber_typed h c List.mem_cons_self)
  | string items => exact .inr rfl

theorem readList_congr {s t : List UInt8} (h : usmartGetAparm s = usmartGetAparm t) : readList s = readList t := by
  rcases ha : usmartGetAparm t with _ | a
  · rw [readList, readLoop, readList, readLoop, h, ha]
  rcases hp : a.param with _ | p
  · rw [readList, readLoop, readList, readLoop, h, ha]
    dsimp only
    rw [hp]
  · rw [readList_eq ha hp, readList_eq (h.trans ha) hp]

theorem readList_spaces {sp : List UInt8} (hsp : Spaces sp) (s : List UInt8) : readList (sp ++ s) = readList s :=
  readList_congr (numLoop_spaces false [] hsp s)

/-- Behind a comma the next parameter is looked for. -/
theorem numLoop_begins {s : List UInt8} (hs : Begins s) (fparm : List UInt8) :
    numLoop true fparm s = some ⟨fparm, .num, s⟩ := by
  cases s with
  | nil => exact hs.elim
  | cons c s =>
    rw [numLoop]
    rcases hs with hc | rfl
    · rw [if_neg (hc.ne (by decide)), if_neg (hc.ne (by decide)), if_pos hc, if_pos rfl]
    · rfl

theorem readList_comma {sp s : List UInt8} (hsp : Spaces sp) (hs : Begins s) :
    readList (COMMA :: (sp ++ s)) = readList s := by
  have ha : usmartGetAparm (COMMA :: (sp ++ s)) = some ⟨[], .num, s⟩ := by
    show numLoop true [] (sp ++ s) = _
    rw [numLoop_spaces true [] hsp, numLoop_begins hs]
  exact readList_eq ha rfl

/-- A number and what follows it. -/
theorem Number.aparm_param {x : Number} (rest : List UInt8) :
    (⟨x.text, .num, rest⟩ : Aparm).param = some (some (.num (UInt32.ofInt x.value))) := by
  have hne : x.text ≠ [] := by simp [Number.text, x.digits_ne_nil]
  rw [Aparm.param]
  dsimp only
  rw [if_neg hne, x.str2num]

theorem getAparm_number {x : Number} {typed sp : List UInt8} (h : typed.map upper = x.text) (hsp : Spaces sp)
    (s : List UInt8) : usmartGetAparm (typed ++ (sp ++ s)) = numLoop false x.text s := by
  rw [usmartGetAparm, numLoop_digits (inNumber_typed h), List.nil_append, h, numLoop_spaces false _ hsp]

theorem getAparm_string {items : List StrItem} {sp : List UInt8} (hsp : Spaces sp) {c : UInt8}
    (hc : c = COMMA ∨ c = RPAR) (s : List UInt8) :
    usmartGetAparm ((Typed.string items).text ++ (sp ++ c :: s)) =
      some ⟨items.map StrItem.byte, .str, c :: s⟩ := by
  have hshape : (Typed.string items).text ++ (sp ++ c :: s) =
      QUOTE :: (items.flatMap StrItem.text ++ QUOTE :: (sp ++ c :: s)) := by simp [Typed.text]
  rw [hshape]
  show strLoop true [] _ = _
  rw [strLoop_items, List.nil_append, strLoop_spaces _ hsp, strLoop_stop hc]

/-- The last parameter. -/
theorem readList_last (p : Typed) {sp : List UInt8} (hsp : Spaces sp) (s : List UInt8) :
    readList (p.text ++ (sp ++ RPAR :: s)) = ⟨[p.param], .closed⟩ := by
  have hend : readList (RPAR :: s) = ⟨[], .closed⟩ := readLoop_ended _ rfl
  cases p with
  | number x typed h =>
    exact (readList_eq (getAparm_number h hsp (RPAR :: s)) (x.aparm_param _)).trans
      (congrArg (Reading.cons _) hend)
  | string items =>
    rw [readList_eq (getAparm_string hsp (.inr rfl) s) rfl]
    exact congrArg (Reading.cons _) hend

/-- A parameter with another one behind it. -/
theorem readList_next (p : Typed) {sp sp' s : List UInt8} (hsp : Spaces sp) (hsp' : Spaces sp') (hs : Begins s) :
    readList (p.text ++ (sp ++ COMMA :: (sp' ++ s))) = (readList s).cons p.param := by
  cases p with
  | number x typed h =>
    have ha : numLoop false x.text (COMMA :: (sp' ++ s)) = some ⟨x.text, .num, s⟩ := by
      show numLoop true x.text (sp' ++ s) = _
      rw [numLoop_spaces true _ hsp', numLoop_begins hs]
    exact readList_eq ((getAparm_number h hsp _).trans ha) (x.aparm_param _)
  | string items =>
    rw [readList_eq (getAparm_string hsp (.inl rfl) _) rfl]
    exact congrArg (Reading.cons _) (readList_comma hsp' hs)

/-- **The parameters are read as they are typed.** -/
theorem readList_typed (s : List UInt8) : ∀ fs : List Field,
    readList (typedList fs ++ RPAR :: s) = ⟨fs.map Field.param, .closed⟩
  | [] => readLoop_ended _ rfl
  | [f] => by
    have hshape : typedList [f] ++ RPAR :: s = f.before ++ (f.typed.text ++ (f.after ++ RPAR :: s)) := by
      simp [typedList, Field.text]
    rw [hshape, readList_spaces f.spaces_before, readList_last f.typed f.spaces_after]
    rfl
  | f :: g :: fs => by
    have ih := readList_typed s (g :: fs)
    obtain ⟨tail, htail⟩ : ∃ tail, typedList (g :: fs) ++ RPAR :: s = g.before ++ (g.typed.text ++ tail) := by
      cases fs with
      | nil => exact ⟨g.after ++ RPAR :: s, by simp [typedList, Field.text]⟩
      | cons f' fs => exact ⟨g.after ++ COMMA :: (typedList (f' :: fs) ++ RPAR :: s), by simp [typedList, Field.text]⟩
    have hshape : typedList (f :: g :: fs) ++ RPAR :: s =
        f.before ++ (f.typed.text ++ (f.after ++ COMMA :: (g.before ++ (g.typed.text ++ tail)))) := by
      rw [← htail]
      simp [typedList, Field.text]
    rw [htail, readList_spaces g.spaces_before] at ih
    rw [hshape, readList_spaces f.spaces_before,
      readList_next f.typed f.spaces_after g.spaces_before (g.typed.begins tail), ih]
    rfl

theorem findList_eq (list : List UInt8) : ∀ {name : List UInt8}, LPAR ∉ name →
    findList (name ++ LPAR :: list) = some (some list)
  | [], _ => by
    unfold findList
    rfl
  | c :: name, h => by
    obtain ⟨hc, hname⟩ := not_or.1 (mt List.mem_cons.2 h)
    obtain ⟨d, l, hdl⟩ : ∃ d l, name ++ LPAR :: list = d :: l := by
      cases name with
      | nil => exact ⟨_, _, rfl⟩
      | cons d name => exact ⟨_, _, rfl⟩
    have ih := findList_eq list hname
    rw [hdl] at ih
    rw [List.cons_append, hdl, findList, if_neg (Ne.symm hc)]
    exact ih

/-! ## The arguments -/

/-- A command as it is typed: `name(p₁, ..., pₙ)`. -/
def typedLine (name sp : List UInt8) (fs : List Field) : List UInt8 :=
  name ++ LPAR :: (sp ++ (typedList fs ++ [RPAR]))

theorem Typed.str_noNul (p : Typed) {s : List UInt8} (h : p.param = .str s) : 0 ∉ s := by
  cases p with
  | number x typed hx => cases h
  | string items =>
    obtain rfl := Param.str.inj h
    intro hmem
    obtain ⟨item, -, hitem⟩ := List.mem_map.1 hmem
    cases item with
    | plain c hc => exact hc.1 hitem
    | escaped c hc => exact hc hitem

/-- **The parameters arrive as they are typed**, whatever the last command has left. -/
theorem fparam_typed (d : Dev) {name sp : List UInt8} {fs : List Field} (hname : LPAR ∉ name) (hsp : Spaces sp)
    (hcount : fs.length ≤ maxParm) (hsize : total (fs.map Field.param) ≤ parmLen) :
    ∃ d', usmartGetFparam d (typedLine name sp fs) = some (.ok, d', fs.length) ∧
      ∀ i (hi : i < fs.length), d'.Yields i fs[i].param := by
  have hread : readParams (typedLine name sp fs) = ⟨fs.map Field.param, .closed⟩ := by
    rw [readParams, typedLine, findList_eq _ hname]
    dsimp only
    rw [readList_spaces hsp, readList_typed]
  have htotal : total (fs.map Field.param) < 256 := Nat.lt_of_le_of_lt hsize (by decide)
  have hstored : Stored (d.clear.storeAll 0 (fs.map Field.param)) ([] ++ fs.map Field.param) :=
    (stored_nil d).storeAll htotal (by rw [List.nil_append, List.length_map]; exact Nat.le_trans hcount (by decide))
  rw [List.nil_append] at hstored
  refine ⟨d.clear.storeAll 0 (fs.map Field.param), ?_, fun i hi => ?_⟩
  · rw [fparam_eq, hread, Reading.stored, if_pos (by simpa using hcount), Nat.zero_add, List.length_map]
    rfl
  · have hyields := hstored.yields htotal (i := i) (by simpa using hi)
      (fun s hs => fs[i].typed.str_noNul (by simpa [Field.param] using hs))
    simpa using hyields

/-- `-0x1f`, with a space on either side. -/
def minus31 : Field where
  before := [SPACE]
  typed := .number ⟨.minus, .hex, ascii "1F", by decide +kernel, by simp [ascii, Radix.IsDigit]⟩ (ascii "-0x1f")
    (by decide +kernel)
  after := [SPACE]
  spaces_before := by simp [Spaces]
  spaces_after := by simp [Spaces]

/-- `"a\","`. -/
def quoted : Field where
  before := [SPACE]
  typed := .string [.plain 0x61 (by decide), .escaped QUOTE (by decide), .plain COMMA (by decide)]
  after := []
  spaces_before := by simp [Spaces]
  spaces_after := by simp [Spaces]

theorem fparam_typed_two : ∃ d', usmartGetFparam .initial (ascii "f( -0x1f , \"a\\\",\")") = some (.ok, d', 2) ∧
    d'.temp 0 = .val 0xFFFFFFE1 ∧ ∃ pos, d'.temp 1 = .ptr pos ∧ d'.StringAt pos (ascii "a\",") := by
  have hline : typedLine (ascii "f") [] [minus31, quoted] = ascii "f( -0x1f , \"a\\\",\")" := by decide +kernel
  have hname : LPAR ∉ ascii "f" := by decide +kernel
  have hsp : Spaces [] := by simp [Spaces]
  have htyped := fparam_typed .initial hname hsp (show [minus31, quoted].length ≤ maxParm by decide) (by decide)
  rw [hline] at htyped
  obtain ⟨d', hd', hyields⟩ := htyped
  exact ⟨d', hd', hyields 0 (by decide), hyields 1 (by decide)⟩

end DataRecorder.Usmart
