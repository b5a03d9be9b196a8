/-
  Receiving a command (`HAL_UART3_RxCpltCallback` in `SYSTEM/usart/usart.c`,
  `usmart_scan` in `USMART/usmart.c`).

  The callback and the scan share the word `USART_RX_STA` and the buffer.  A step is
  one received byte, or one of the three accesses of `usmart_scan` to them, so that
  bytes arrive also while a command is executed.  The command itself is taken not to
  write the two.

  * `Frame` says what the callback does to a line, and `Represents.rx` that it does;
  * `safe`: indices, flags and the strings handed to `cmd_rec`, along every run.
-/
import DataRecorder.Base.Memory
import DataRecorder.Base.System

namespace DataRecorder.Usmart

open Base

abbrev CR : UInt8 := 0x0d

abbrev LF : UInt8 := 0x0a

def usartRecLen : ℕ := 200

/-! ## The code -/

/-- `USART_RX_STA`, `USART_RX_BUF`, and the indices at which the buffer was written. -/
structure Uart where
  sta : UInt16
  buf : ℕ → UInt8
  written : List ℕ

def Uart.store (u : Uart) (i : ℕ) (b : UInt8) : Uart :=
  { u with buf := Function.update u.buf i b, written := i :: u.written }

/-- `HAL_UART3_RxCpltCallback`, for the byte `b` in `aRxBuffer`. -/
def rxCplt (b : UInt8) (u : Uart) : Uart :=
  if u.sta &&& 0x8000 = 0 then
    if u.sta &&& 0x4000 ≠ 0 then
      if b ≠ LF then { u with sta := 0 } else { u with sta := u.sta ||| 0x8000 }
    else if b = CR then { u with sta := u.sta ||| 0x4000 }
    else
      let u := u.store (u.sta &&& 0x3FFF).toNat b
      let u := { u with sta := u.sta + 1 }
      if u.sta > UInt16.ofNat (usartRecLen - 1) then { u with sta := 0 } else u
  else u

/-- The string that a reader of the buffer finds: it ends before the first NUL. -/
def cString (buf : ℕ → UInt8) : List UInt8 := (slice buf 0 usartRecLen).takeWhile (· ≠ 0)

/-- Where `usmart_scan` is. -/
inductive Phase where
  | idle
  /-- it has seen the flag -/
  | found
  /-- it has stored the NUL and called `cmd_rec` -/
  | executing
  deriving DecidableEq

/-- A call of `cmd_rec`: its string, the buffer up to the NUL that `usmart_scan` has stored, the
bytes received since the last reset of the state, and all that were received. -/
structure Handed where
  text : List UInt8
  buffer : List UInt8
  since : List UInt8
  stream : List UInt8

/-- `scanned` tells whether a whole `usmart_scan` has run since the last byte. -/
structure Receiver where
  uart : Uart
  phase : Phase
  scanned : Bool
  since : List UInt8
  stream : List UInt8
  handed : List Handed

inductive Action where
  | rx (b : UInt8)
  /-- `usmart_scan` is called and tests the flag -/
  | scan
  /-- it stores the NUL and calls `cmd_rec` -/
  | hand
  /-- it clears the state -/
  | clear

/-- `usmart_scan` stores the NUL and calls `cmd_rec`. -/
def Receiver.hand (s : Receiver) : Receiver :=
  let len : UInt8 := (s.uart.sta &&& 0x3fff).toUInt8
  let uart := s.uart.store len.toNat 0
  { s with
    uart := uart
    phase := .executing
    handed := ⟨cString uart.buf, slice uart.buf 0 (len.toNat + 1), s.since, s.stream⟩ :: s.handed }

def step : Action → Receiver → Option Receiver
  | .rx b, s =>
    let uart := rxCplt b s.uart
    some { s with
      uart := uart
      scanned := false
      since := if uart.sta = 0 then [] else s.since ++ [b]
      stream := s.stream ++ [b] }
  | .scan, s =>
    if s.phase = .idle then
      if s.uart.sta &&& 0x8000 ≠ 0 then some { s with phase := .found }
      else some { s with scanned := true }
    else none
  | .hand, s => if s.phase = .found then some s.hand else none
  | .clear, s =>
    if s.phase = .executing then
      some { s with uart := { s.uart with sta := 0 }, phase := .idle, scanned := true, since := [] }
    else none

def start (buf : ℕ → UInt8) : Receiver := ⟨⟨0, buf, []⟩, .idle, false, [], [], []⟩

/-! ## The line that is received -/

/-- The line so far; one whose CR was received; one that is complete. -/
inductive Frame where
  | text (l : List UInt8)
  | cr (l : List UInt8)
  | full (l : List UInt8)
  deriving DecidableEq

namespace Frame

def line : Frame → List UInt8
  | text l | cr l | full l => l

/-- The line after a byte.  A line that gets too long, or whose CR is not followed by LF, is
dropped, and what follows is taken for a new line. -/
def rx (b : UInt8) : Frame → Frame
  | text l =>
    if b = CR then cr l
    else if l.length + 1 < usartRecLen then text (l ++ [b]) else text []
  | cr l => if b = LF then full l else text []
  | full l => full l

def sta : Frame → UInt16
  | text l => UInt16.ofNat l.length
  | cr l => UInt16.ofNat l.length ||| 0x4000
  | full l => UInt16.ofNat l.length ||| 0xC000

end Frame

/-- The state word and the buffer hold the line `f`. -/
structure Represents (u : Uart) (f : Frame) : Prop where
  sta : u.sta = f.sta
  buf : slice u.buf 0 f.line.length = f.line
  length : f.line.length < usartRecLen
  noCR : CR ∉ f.line

/-! ## Bits of the state word -/

section
variable {n : ℕ} (h : n < usartRecLen)
include h

theorem sta_text : UInt16.ofNat n &&& 0x8000 = 0 ∧ UInt16.ofNat n &&& 0x4000 = 0 ∧
    (UInt16.ofNat n &&& 0x3FFF).toNat = n := by
  revert n
  decide +kernel

theorem sta_cr : (UInt16.ofNat n ||| 0x4000) &&& 0x8000 = 0 ∧ (UInt16.ofNat n ||| 0x4000) &&& 0x4000 ≠ 0 ∧
    ((UInt16.ofNat n ||| 0x4000) &&& 0x3FFF).toNat = n := by
  revert n
  decide +kernel

theorem sta_full : (UInt16.ofNat n ||| 0xC000) &&& 0x8000 ≠ 0 ∧
    ((UInt16.ofNat n ||| 0xC000) &&& 0x3FFF).toNat = n := by
  revert n
  decide +kernel

theorem sta_full_len : ((UInt16.ofNat n ||| 0xC000) &&& 0x3FFF).toUInt8.toNat = n := by
  revert n
  decide +kernel

theorem sta_next : UInt16.ofNat n + 1 > UInt16.ofNat (usartRecLen - 1) ↔ ¬ n + 1 < usartRecLen := by
  revert n
  decide +kernel

end

theorem Represents.count {u : Uart} {f : Frame} (h : Represents u f) :
    (u.sta &&& 0x3FFF).toNat = f.line.length := by
  rw [h.sta]
  cases f with
  | text l => exact (sta_text h.length).2.2
  | cr l => exact (sta_cr h.length).2.2
  | full l => exact (sta_full h.length).2

/-- The flag is set for a complete line only. -/
theorem Represents.flag {u : Uart} {f : Frame} (h : Represents u f) :
    u.sta &&& 0x8000 ≠ 0 ↔ f = .full f.line := by
  rw [h.sta]
  cases f with
  | text l => exact iff_of_false (not_not.2 (sta_text h.length).1) (by simp)
  | cr l => exact iff_of_false (not_not.2 (sta_cr h.length).1) (by simp)
  | full l => exact iff_of_true (sta_full h.length).1 rfl

theorem slice_update (buf : ℕ → UInt8) (n : ℕ) (b : UInt8) : slice (Function.update buf n b) 0 n = slice buf 0 n :=
  slice_congr fun i _ hi => Function.update_of_ne (by omega) _ _

theorem slice_update_succ (buf : ℕ → UInt8) (n : ℕ) (b : UInt8) :
    slice (Function.update buf n b) 0 (n + 1) = slice buf 0 n ++ [b] := by
  rw [slice_add, slice_update, Nat.zero_add]
  simp [slice]

theorem Represents.empty (buf : ℕ → UInt8) (written : List ℕ) : Represents ⟨0, buf, written⟩ (.text []) :=
  ⟨rfl, rfl, by decide, by simp [Frame.line]⟩

theorem Represents.rx_text {u : Uart} {l : List UInt8} (h : Represents u (.text l)) (b : UInt8) :
    Represents (rxCplt b u) (Frame.rx b (.text l)) := by
  have hlen : l.length < usartRecLen := h.length
  have hsta : u.sta = UInt16.ofNat l.length := h.sta
  obtain ⟨hfull, hcr, hcount⟩ := sta_text hlen
  rw [← hsta] at hfull hcr hcount
  rw [rxCplt, if_pos hfull, if_neg (not_not.2 hcr), Frame.rx]
  by_cases hb : b = CR
  · rw [if_pos hb, if_pos hb]
    exact ⟨by rw [hsta]; rfl, h.buf, hlen, h.noCR⟩
  rw [if_neg hb, if_neg hb, hcount]
  have hover : u.sta + 1 > UInt16.ofNat (usartRecLen - 1) ↔ ¬ l.length + 1 < usartRecLen := by
    rw [hsta]
    exact sta_next hlen
  dsimp only [Uart.store]
  by_cases hfit : l.length + 1 < usartRecLen
  · rw [if_pos hfit, if_neg (by rw [hover]; exact not_not.2 hfit)]
    refine ⟨?_, ?_, ?_, ?_⟩
    · show u.sta + 1 = UInt16.ofNat (l ++ [b]).length
      rw [hsta, List.length_append, List.length_singleton, UInt16.ofNat_add]
      rfl
    · show slice (Function.update u.buf l.length b) 0 (l ++ [b]).length = l ++ [b]
      rw [List.length_append, List.length_singleton, slice_update_succ]
      exact congrArg (· ++ [b]) h.buf
    · simpa [Frame.line] using hfit
    · simpa [Frame.line, Ne.symm hb] using h.noCR
  · rw [if_neg hfit, if_pos (by rw [hover]; exact hfit)]
    exact .empty _ _

/-- **The callback does to the buffer what `Frame.rx` does to the line.** -/
theorem Represents.rx {u : Uart} {f : Frame} (h : Represents u f) (b : UInt8) :
    Represents (rxCplt b u) (f.rx b) := by
  cases f with
  | text l => exact h.rx_text b
  | cr l =>
    have hsta : u.sta = UInt16.ofNat l.length ||| 0x4000 := h.sta
    obtain ⟨hfull, hcr, -⟩ := sta_cr (show l.length < usartRecLen from h.length)
    rw [← hsta] at hfull hcr
    rw [rxCplt, if_pos hfull, if_pos hcr, Frame.rx]
    by_cases hb : b = LF
    · rw [if_neg (not_not.2 hb), if_pos hb]
      refine ⟨?_, h.buf, h.length, h.noCR⟩
      show u.sta ||| 0x8000 = UInt16.ofNat l.length ||| 0xC000
      rw [hsta, UInt16.or_assoc]
      rfl
    · rw [if_pos hb, if_neg hb]
      exact .empty _ _
  | full l =>
    rw [rxCplt, if_neg (h.flag.2 rfl)]
    exact h

/-- Every index that the callback writes is inside the buffer. -/
theorem Represents.rx_written {u : Uart} {f : Frame} (h : Represents u f) (b : UInt8)
    (hw : ∀ i ∈ u.written, i < usartRecLen) : ∀ i ∈ (rxCplt b u).written, i < usartRecLen := by
  unfold rxCplt
  dsimp only [Uart.store]
  have hi : (u.sta &&& 0x3FFF).toNat < usartRecLen := by
    rw [h.count]
    exact h.length
  split_ifs
  any_goals exact hw
  all_goals exact List.forall_mem_cons.2 ⟨hi, hw⟩

theorem Represents.sta_eq_zero {u : Uart} {f : Frame} (h : Represents u f) : u.sta = 0 ↔ f = .text [] := by
  have hcount := h.count
  have hsta := h.sta
  constructor
  · intro h₀
    rw [h₀] at hcount hsta
    cases f with
    | text l => rw [show l = [] from List.length_eq_zero_iff.1 hcount.symm]
    | cr l =>
      have hcr : (Frame.cr l).sta &&& 0x4000 ≠ 0 := (sta_cr h.length).2.1
      rw [← hsta] at hcr
      exact absurd (by decide) hcr
    | full l =>
      have hfull : (Frame.full l).sta &&& 0x8000 ≠ 0 := (sta_full h.length).1
      rw [← hsta] at hfull
      exact absurd (by decide) hfull
  · rintro rfl
    exact hsta

/-- The string after the NUL is stored: the line up to its first NUL. -/
theorem cString_store {buf : ℕ → UInt8} {l : List UInt8} (hl : slice buf 0 l.length = l)
    (hlen : l.length < usartRecLen) :
    cString (Function.update buf l.length 0) = l.takeWhile (· ≠ 0) := by
  have hsplit := slice_split (Function.update buf l.length 0) (Nat.zero_le (l.length + 1))
    (show l.length + 1 ≤ usartRecLen from hlen)
  rw [Nat.sub_zero, Nat.sub_zero, slice_update_succ, hl] at hsplit
  rw [cString, hsplit, List.append_assoc, List.takeWhile_append]
  split_ifs with hall
  · rw [List.singleton_append, List.takeWhile_cons_of_neg (by simp), List.append_nil,
      (List.takeWhile_prefix _).eq_of_length hall]
  · rfl

/-! ## Runs -/

/-- What an action does to the line. -/
def Frame.step : Action → Frame → Frame
  | .rx b, f => f.rx b
  | .clear, _ => .text []
  | _, f => f

/-- What has been received since the last reset: the line, and what followed it. -/
def Frame.Since (since : List UInt8) : Frame → Prop
  | .text l => since = l
  | .cr l => since = l ++ [CR]
  | .full l => ∃ ignored, since = l ++ CR :: LF :: ignored

theorem Frame.Since.rx {since : List UInt8} {f : Frame} (h : f.Since since) (b : UInt8) :
    (f.rx b).Since (if f.rx b = .text [] then [] else since ++ [b]) := by
  cases f with
  | text l =>
    obtain rfl : since = l := h
    rw [Frame.rx]
    by_cases hb : b = CR
    · rw [if_pos hb, if_neg (by simp), hb]
      rfl
    by_cases hfit : since.length + 1 < usartRecLen
    · rw [if_neg hb, if_pos hfit, if_neg (by simp)]
      rfl
    · rw [if_neg hb, if_neg hfit, if_pos rfl]
      rfl
  | cr l =>
    obtain rfl : since = l ++ [CR] := h
    rw [Frame.rx]
    by_cases hb : b = LF
    · rw [if_pos hb, if_neg (by simp), hb]
      exact ⟨[], by simp⟩
    · rw [if_neg hb, if_pos rfl]
      rfl
  | full l =>
    obtain ⟨ignored, rfl⟩ := h
    rw [Frame.rx, if_neg (by simp)]
    exact ⟨ignored ++ [b], by simp⟩

/-- The string handed over is the line, up to its first NUL; the buffer holds the whole line. -/
structure Handed.Exact (h : Handed) : Prop where
  line : ∃ l rest, h.since = l ++ CR :: rest ∧ CR ∉ l ∧ h.buffer = l ++ [0] ∧ h.text = l.takeWhile (· ≠ 0)
  noCR : CR ∉ h.text

/-- The index below 200, the flag, and the strings. -/
structure Safe (s : Receiver) : Prop where
  count : (s.uart.sta &&& 0x3FFF).toNat ≤ 199
  index : ∀ i ∈ s.uart.written, i < usartRecLen
  frozen : s.uart.sta &&& 0x8000 ≠ 0 → ∀ b, rxCplt b s.uart = s.uart
  handed : ∀ h ∈ s.handed, h.Exact

/-- The invariant of the runs. -/
structure Inv (s : Receiver) (f : Frame) : Prop where
  represents : Represents s.uart f
  since : f.Since s.since
  busy : s.phase ≠ .idle → f = .full f.line
  index : ∀ i ∈ s.uart.written, i < usartRecLen
  handed : ∀ h ∈ s.handed, h.Exact

/-- What `usmart_scan` does with a complete line. -/
theorem Represents.hand {s : Receiver} {l : List UInt8} (h : Represents s.uart (.full l)) :
    s.hand = { s with
      uart := s.uart.store l.length 0
      phase := .executing
      handed := ⟨l.takeWhile (· ≠ 0), l ++ [0], s.since, s.stream⟩ :: s.handed } := by
  have hlen : l.length < usartRecLen := h.length
  have hbuf : slice s.uart.buf 0 l.length = l := h.buf
  have hcount : (s.uart.sta &&& 0x3fff).toUInt8.toNat = l.length := by
    rw [h.sta]
    exact sta_full_len hlen
  have htext : cString (s.uart.store l.length 0).buf = l.takeWhile (· ≠ 0) := cString_store hbuf hlen
  have hbuffer : slice (s.uart.store l.length 0).buf 0 (l.length + 1) = l ++ [0] := by
    rw [Uart.store, slice_update_succ, hbuf]
  dsimp only [Receiver.hand]
  rw [hcount, htext, hbuffer]

theorem Inv.hand {s : Receiver} {f : Frame} (h : Inv s f) (hfound : s.phase = .found) : Inv s.hand f := by
  have hfull := h.busy (by rw [hfound]; simp)
  generalize f.line = l at hfull
  subst hfull
  obtain ⟨ignored, hsince⟩ := h.since
  rw [h.represents.hand]
  refine ⟨⟨h.represents.sta, ?_, h.represents.length, h.represents.noCR⟩, ⟨ignored, hsince⟩, fun _ => rfl,
    List.forall_mem_cons.2 ⟨h.represents.length, h.index⟩, List.forall_mem_cons.2 ⟨?_, h.handed⟩⟩
  · show slice (Function.update s.uart.buf l.length 0) 0 l.length = l
    rw [slice_update]
    exact h.represents.buf
  · exact ⟨⟨l, LF :: ignored, hsince, h.represents.noCR, rfl, rfl⟩,
      fun hcr => h.represents.noCR ((List.takeWhile_prefix _).subset hcr)⟩

theorem Inv.step {a : Action} {s s' : Receiver} {f : Frame} (h : Inv s f) (hs : step a s = some s') :
    Inv s' (f.step a) := by
  cases a with
  | rx b =>
    obtain rfl := Option.some.inj hs
    have hrep := h.represents.rx b
    refine ⟨hrep, ?_, fun hbusy => ?_, h.represents.rx_written b h.index, h.handed⟩
    · show (f.rx b).Since (if (rxCplt b s.uart).sta = 0 then [] else s.since ++ [b])
      have := h.since.rx b
      simpa only [hrep.sta_eq_zero] using this
    · show f.rx b = _
      rw [h.busy hbusy]
      rfl
  | scan =>
    simp only [Usmart.step] at hs
    split_ifs at hs with hidle hflag
    · cases hs
      exact ⟨h.represents, h.since, fun _ => h.represents.flag.1 hflag, h.index, h.handed⟩
    · cases hs
      exact ⟨h.represents, h.since, h.busy, h.index, h.handed⟩
  | hand =>
    simp only [Usmart.step] at hs
    split_ifs at hs with hfound
    cases hs
    exact h.hand hfound
  | clear =>
    simp only [Usmart.step] at hs
    split_ifs at hs with hexec
    cases hs
    exact ⟨.empty _ _, rfl, fun hbusy => absurd rfl hbusy, h.index, h.handed⟩

theorem inv_start (buf : ℕ → UInt8) : Inv (start buf) (.text []) where
  represents := .empty _ _
  since := rfl
  busy hbusy := absurd rfl hbusy
  index _ hi := absurd hi List.not_mem_nil
  handed _ hh := absurd hh List.not_mem_nil

/-- **The receive buffer along every run.** -/
theorem safe {buf : ℕ → UInt8} {as : List Action} {s : Receiver} (h : run step as (start buf) = some s) :
    Safe s := by
  obtain ⟨f, hinv⟩ : ∃ f, Inv s f := by
    refine run_inv (I := fun s => ∃ f, Inv s f) ?_ ⟨_, inv_start buf⟩ h
    rintro s a s' ⟨f, hI⟩ hs
    exact ⟨_, hI.step hs⟩
  refine ⟨?_, hinv.index, ?_, hinv.handed⟩
  · rw [hinv.represents.count]
    exact Nat.le_of_lt_succ hinv.represents.length
  · intro hflag b
    rw [rxCplt, if_neg hflag]

/-- A line is received, and a byte arrives while it is executed. -/
def oneLine : List Action :=
  [.rx 0x61, .rx 0x62, .rx CR, .rx LF, .scan, .hand, .rx 0x63, .clear]

theorem oneLine_safe : ∃ s, run step oneLine (start fun _ => 0) = some s ∧
    s.handed.map Handed.text = [[0x61, 0x62]] ∧ Safe s := by
  have hrun : (run step oneLine (start fun _ => 0)).map (fun s => s.handed.map Handed.text) =
      some [[0x61, 0x62]] := by decide +kernel
  obtain ⟨s, hs, htext⟩ := Option.map_eq_some_iff.1 hrun
  exact ⟨s, hs, htext, safe hs⟩

/-- The string ends at a NUL that was received. -/
theorem not_text_eq : ¬ ∀ (buf : ℕ → UInt8) (as : List Action) (s : Receiver),
    run step as (start buf) = some s → ∀ h ∈ s.handed, h.text = h.since.takeWhile (· ≠ CR) := by
  intro h
  have hrun : (run step [.rx 0x61, .rx 0, .rx 0x62, .rx CR, .rx LF, .scan, .hand] (start fun _ => 0)).map
      (fun s => s.handed.map fun h => (h.text, h.since)) =
      some [([0x61], [0x61, 0, 0x62, CR, LF])] := by decide +kernel
  obtain ⟨s, hs, hpairs⟩ := Option.map_eq_some_iff.1 hrun
  obtain ⟨x, hx, hpair⟩ := List.mem_map.1 (hpairs ▸ List.mem_singleton_self _)
  obtain ⟨htext, hsince⟩ := Prod.mk.inj hpair
  have := h _ _ _ hs x hx
  rw [htext, hsince] at this
  revert this
  decide

end DataRecorder.Usmart
