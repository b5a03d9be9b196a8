/-
  Which lines of the received stream are executed.

  The stream is read as lines terminated by CR LF, and a `usmart_scan` runs between
  any two lines.  A line that is too long, or has a CR inside, resets the callback
  in its middle, and the rest of it is taken for a new line.  A line that ends in a
  CR makes the callback miss the terminator; the LF is then left in the buffer.

  * `handedBy` are the strings that a list of lines leads to, each with its line;
  * `wholeLines_iff`: only whole lines are handed over, if and only if the lines are
    plain until one, and from there on all end in an odd number of CRs.
-/
import Mathlib.Algebra.Ring.Parity
import Mathlib.Data.List.Infix
import Mathlib.Data.List.TakeWhile
import DataRecorder.Usmart.Receive

namespace DataRecorder.Usmart

open Base

/-! ## Lines of a stream -/

/-- The lines terminated so far, and the bytes after them. -/
structure Split where
  lines : List (List UInt8)
  rest : List UInt8

def Split.add (s : Split) (b : UInt8) : Split :=
  if b = LF ∧ s.rest.getLast? = some CR then ⟨s.lines ++ [s.rest.dropLast], []⟩
  else ⟨s.lines, s.rest ++ [b]⟩

def splitLines (stream : List UInt8) : Split := stream.foldl Split.add ⟨[], []⟩

theorem splitLines_concat (stream : List UInt8) (b : UInt8) :
    splitLines (stream ++ [b]) = (splitLines stream).add b := by
  rw [splitLines, List.foldl_append]
  rfl

/-- There is no terminator inside of a line. -/
def NoTerminator (l : List UInt8) : Prop := ¬ [CR, LF] <:+: l

theorem noTerminator_concat {l : List UInt8} {b : UInt8} :
    NoTerminator (l ++ [b]) ↔ NoTerminator l ∧ ¬ (b = LF ∧ l.getLast? = some CR) := by
  have hsuffix : [CR, LF] <:+ l ++ [b] ↔ b = LF ∧ l.getLast? = some CR := by
    constructor
    · rintro ⟨t, ht⟩
      have ht' : (t ++ [CR]) ++ [LF] = l ++ [b] := by rw [← ht, List.append_assoc]; rfl
      obtain ⟨rfl, hb⟩ := List.append_inj' ht' rfl
      exact ⟨(List.singleton_inj.1 hb).symm, by simp⟩
    · rintro ⟨rfl, hcr⟩
      exact ⟨l.dropLast, by rw [← List.dropLast_append_getLast? CR hcr]; simp⟩
  rw [NoTerminator, List.infix_concat_iff, hsuffix, not_or, and_comm]
  rfl

/-- The lines with their terminators, and the rest, are the stream. -/
theorem splitLines_join (stream : List UInt8) :
    (splitLines stream).lines.flatMap (· ++ [CR, LF]) ++ (splitLines stream).rest = stream := by
  induction stream using List.reverseRecOn with
  | nil => rfl
  | append_singleton stream b ih =>
    rw [splitLines_concat, Split.add]
    split_ifs with h
    · obtain ⟨rfl, hcr⟩ := h
      conv_rhs => rw [← ih, ← List.dropLast_append_getLast? CR hcr]
      simp
    · conv_rhs => rw [← ih]
      simp

theorem splitLines_noTerminator (stream : List UInt8) :
    (∀ l ∈ (splitLines stream).lines, NoTerminator l) ∧ NoTerminator (splitLines stream).rest := by
  induction stream using List.reverseRecOn with
  | nil => exact ⟨fun l hl => absurd hl List.not_mem_nil, by simp [NoTerminator, splitLines]⟩
  | append_singleton stream b ih =>
    obtain ⟨hlines, hrest⟩ := ih
    rw [splitLines_concat, Split.add]
    split_ifs with h
    · refine ⟨fun l hl => ?_, by simp [NoTerminator]⟩
      rcases List.mem_append.1 hl with hl | hl
      · exact hlines l hl
      · rw [List.mem_singleton.1 hl]
        exact fun hin => hrest (hin.trans (List.dropLast_prefix _).isInfix)
    · exact ⟨hlines, noTerminator_concat.2 ⟨hrest, h⟩⟩

/-! ## What a line leads to -/

/-- The line after the bytes `l`. -/
def feed (f : Frame) (l : List UInt8) : Frame := l.foldl (fun f b => f.rx b) f

theorem feed_concat (f : Frame) (l : List UInt8) (b : UInt8) : feed f (l ++ [b]) = (feed f l).rx b := by
  rw [feed, List.foldl_append]
  rfl

/-- How many CRs a line ends in. -/
def trailingCR (l : List UInt8) : ℕ := l.foldl (fun n b => if b = CR then n + 1 else 0) 0

theorem trailingCR_concat (l : List UInt8) (b : UInt8) :
    trailingCR (l ++ [b]) = if b = CR then trailingCR l + 1 else 0 := by
  rw [trailingCR, List.foldl_append]
  rfl

theorem getLast?_of_trailingCR {l : List UInt8} (h : trailingCR l ≠ 0) : l.getLast? = some CR := by
  rcases List.eq_nil_or_concat' l with rfl | ⟨l, b, rfl⟩
  · exact absurd rfl h
  · rw [trailingCR_concat] at h
    rw [List.getLast?_concat, (ite_ne_right_iff.1 h).1]

/-- **A CR is pending after an odd number of them.** -/
theorem feed_text (c : List UInt8) {l : List UInt8} (hl : NoTerminator l) :
    (Odd (trailingCR l) ∧ ∃ t, feed (.text c) l = .cr t) ∨
      (¬ Odd (trailingCR l) ∧ ∃ t, feed (.text c) l = .text t) := by
  induction l using List.reverseRecOn with
  | nil => exact .inr ⟨by simp [trailingCR], c, rfl⟩
  | append_singleton l b ih =>
    obtain ⟨hl, hend⟩ := noTerminator_concat.1 hl
    rw [feed_concat, trailingCR_concat]
    rcases ih hl with ⟨hodd, t, ht⟩ | ⟨heven, t, ht⟩
    · have hlast : l.getLast? = some CR := getLast?_of_trailingCR fun h₀ => by simp [h₀] at hodd
      refine .inr ⟨?_, [], by rw [ht, Frame.rx, if_neg fun hb => hend ⟨hb, hlast⟩]⟩
      split_ifs
      · exact Nat.not_odd_iff_even.2 hodd.add_one
      · exact Nat.not_odd_zero
    · rw [ht, Frame.rx]
      by_cases hb : b = CR
      · rw [if_pos hb, if_pos hb]
        exact .inl ⟨(Nat.not_odd_iff_even.1 heven).add_one, t, rfl⟩
      · rw [if_neg hb, if_neg hb]
        refine .inr ⟨Nat.not_odd_zero, ?_⟩
        split_ifs
        · exact ⟨_, rfl⟩
        · exact ⟨_, rfl⟩

theorem Frame.rx_length {f : Frame} (h : f.line.length < usartRecLen) (b : UInt8) :
    (f.rx b).line.length < usartRecLen := by
  cases f with
  | text l =>
    rw [Frame.rx]
    split_ifs with hb hfit
    · exact h
    · simpa [Frame.line] using hfit
    · decide
  | cr l =>
    rw [Frame.rx]
    split_ifs
    · exact h
    · decide
  | full l => exact h

/-- A byte leaves a text with the byte added, or an empty one. -/
theorem Frame.rx_eq_text {f : Frame} {b : UInt8} {t : List UInt8} (h : f.rx b = .text t) :
    (f = .text f.line ∧ b ≠ CR ∧ t = f.line ++ [b]) ∨ t = [] := by
  cases f with
  | text l =>
    rw [Frame.rx] at h
    split_ifs at h with hb hfit
    · exact .inl ⟨rfl, hb, (Frame.text.inj h).symm⟩
    · exact .inr (Frame.text.inj h).symm
  | cr l =>
    rw [Frame.rx] at h
    split_ifs at h with hb
    exact .inr (Frame.text.inj h).symm
  | full l => cases h

/-- The text after the bytes `l` is what was there with `l`, or it has lost something of `l`. -/
theorem feed_eq_text {l t : List UInt8} : ∀ {f : Frame}, f.line.length < usartRecLen → feed f l = .text t →
    (f = .text f.line ∧ t = f.line ++ l ∧ CR ∉ l ∧ t.length < usartRecLen) ∨ t.length < l.length := by
  induction l with
  | nil =>
    rintro f hlen rfl
    exact .inl ⟨rfl, by simp [Frame.line], by simp, hlen⟩
  | cons b l ih =>
    intro f hlen h
    rcases ih (Frame.rx_length hlen b) h with ⟨hf, ht, hcr, ht'⟩ | hlost
    · rcases Frame.rx_eq_text hf with ⟨hf', hb, hline⟩ | hline
      · rw [hline, List.append_assoc, List.singleton_append] at ht
        exact .inl ⟨hf', ht, by simp [hcr, Ne.symm hb], ht'⟩
      · rw [ht, hline]
        exact .inr (Nat.lt_succ_self _)
    · exact .inr (hlost.trans (Nat.lt_succ_self _))

theorem feed_plain {l : List UInt8} : ∀ {c : List UInt8}, CR ∉ l → (c ++ l).length < usartRecLen →
    feed (.text c) l = .text (c ++ l) := by
  induction l with
  | nil => intro c _ _; simp [feed]
  | cons b l ih =>
    intro c hcr hlen
    obtain ⟨hb, hcr⟩ := not_or.1 (mt List.mem_cons.2 hcr)
    have hfit : c.length + 1 < usartRecLen := by
      simp only [List.length_append, List.length_cons] at hlen
      omega
    have hstep : feed (.text c) (b :: l) = feed (.text (c ++ [b])) l := by
      rw [feed, List.foldl_cons, Frame.rx, if_neg (Ne.symm hb), if_pos hfit]
      rfl
    rw [hstep, ih hcr (by simpa using hlen), List.append_assoc, List.singleton_append]

/-! ## What the lines lead to -/

/-- The strings that the lines `ls` lead to, each with its line, if `c` is left in the buffer. -/
def handedBy (c : List UInt8) : List (List UInt8) → List (List UInt8 × List UInt8)
  | [] => []
  | l :: ls =>
    match feed (.text c) l with
    | .text t => (t.takeWhile (· ≠ 0), l) :: handedBy [] ls
    | _ => handedBy [LF] ls

/-- What is left in the buffer after the lines `ls`. -/
def leftBy (c : List UInt8) : List (List UInt8) → List UInt8
  | [] => c
  | l :: ls =>
    match feed (.text c) l with
    | .text _ => leftBy [] ls
    | _ => leftBy [LF] ls

/-- A line that reaches `cmd_rec` as it was sent. -/
def Plain (l : List UInt8) : Prop := l.length < usartRecLen ∧ CR ∉ l ∧ 0 ∉ l

/-- A line whose terminator the callback misses. -/
def Unterminated (l : List UInt8) : Prop := Odd (trailingCR l)

/-- Plain lines, and then lines whose terminator is missed. -/
def WellSent (ls : List (List UInt8)) : Prop :=
  ∃ ps qs, ls = ps ++ qs ∧ (∀ l ∈ ps, Plain l) ∧ ∀ l ∈ qs, Unterminated l

theorem not_unterminated {l : List UInt8} (h : Plain l) : ¬ Unterminated l := by
  intro hodd
  have hlast : l.getLast? = some CR := getLast?_of_trailingCR fun h₀ => by simp [Unterminated, h₀] at hodd
  exact h.2.1 (List.mem_of_getLast? hlast)

/-- What reaches `cmd_rec` after an empty buffer is the line itself for plain lines only. -/
theorem takeWhile_eq_iff {l t : List UInt8} (h : feed (.text []) l = .text t) :
    t.takeWhile (· ≠ 0) = l ↔ Plain l := by
  constructor
  · intro heq
    rcases feed_eq_text (by decide) h with ⟨-, ht, hcr, hlen⟩ | hlost
    · obtain rfl : t = l := ht
      refine ⟨hlen, hcr, fun hnul => ?_⟩
      rw [← heq] at hnul
      simpa using List.mem_takeWhile_imp hnul
    · have := (List.takeWhile_prefix (p := (· ≠ 0)) (l := t)).length_le
      rw [heq] at this
      omega
  · rintro ⟨hlen, hcr, hnul⟩
    rw [feed_plain (c := []) hcr hlen] at h
    obtain rfl : l = t := Frame.text.inj h
    rw [List.takeWhile_eq_self_iff]
    intro b hb
    exact decide_eq_true fun h₀ => hnul (by rwa [h₀] at hb)

/-- After a missed terminator no line reaches `cmd_rec` as it was sent. -/
theorem takeWhile_ne {l t : List UInt8} (h : feed (.text [LF]) l = .text t) : t.takeWhile (· ≠ 0) ≠ l := by
  intro heq
  have hle := (List.takeWhile_prefix (p := (· ≠ 0)) (l := t)).length_le
  rcases feed_eq_text (by decide) h with ⟨-, ht, -⟩ | hlost
  · have hall : t.takeWhile (· ≠ 0) = t := by
      rw [List.takeWhile_eq_self_iff, ht]
      intro b hb
      rcases List.mem_cons.1 (show b ∈ LF :: l from hb) with rfl | hb
      · decide
      · rw [← heq] at hb
        exact List.mem_takeWhile_imp (p := fun b => decide (b ≠ 0)) hb
    have hlen := congrArg List.length (hall.symm.trans heq)
    rw [ht] at hlen
    simp [Frame.line] at hlen
  · rw [heq] at hle
    omega

/-- How the first line goes on. -/
theorem handedBy_cons (c : List UInt8) {l : List UInt8} (ls : List (List UInt8)) (hl : NoTerminator l) :
    (Unterminated l ∧ handedBy c (l :: ls) = handedBy [LF] ls) ∨
      (¬ Unterminated l ∧ ∃ t, feed (.text c) l = .text t ∧
        handedBy c (l :: ls) = (t.takeWhile (· ≠ 0), l) :: handedBy [] ls) := by
  rcases feed_text c hl with ⟨hodd, t, ht⟩ | ⟨heven, t, ht⟩
  · exact .inl ⟨hodd, by rw [handedBy, ht]⟩
  · exact .inr ⟨heven, t, ht, by rw [handedBy, ht]⟩

theorem handedBy_left_iff {ls : List (List UInt8)} (h : ∀ l ∈ ls, NoTerminator l) :
    (∀ p ∈ handedBy [LF] ls, p.1 = p.2) ↔ ∀ l ∈ ls, Unterminated l := by
  induction ls with
  | nil => simp [handedBy]
  | cons l ls ih =>
    obtain ⟨hl, hls⟩ := List.forall_mem_cons.1 h
    rw [List.forall_mem_cons]
    rcases handedBy_cons [LF] ls hl with ⟨hodd, heq⟩ | ⟨heven, t, ht, heq⟩
    · rw [heq, ih hls]
      exact ⟨fun h' => ⟨hodd, h'⟩, And.right⟩
    · rw [heq, List.forall_mem_cons]
      exact iff_of_false (fun h' => takeWhile_ne ht h'.1) fun h' => heven h'.1

/-- **The strings are the lines**, if and only if the lines are sent well. -/
theorem handedBy_iff {ls : List (List UInt8)} (h : ∀ l ∈ ls, NoTerminator l) :
    (∀ p ∈ handedBy [] ls, p.1 = p.2) ↔ WellSent ls := by
  induction ls with
  | nil => exact iff_of_true (by simp [handedBy]) ⟨[], [], rfl, by simp, by simp⟩
  | cons l ls ih =>
    obtain ⟨hl, hls⟩ := List.forall_mem_cons.1 h
    rcases handedBy_cons [] ls hl with ⟨hodd, heq⟩ | ⟨heven, t, ht, heq⟩
    · rw [heq, handedBy_left_iff hls]
      constructor
      · exact fun h' => ⟨[], l :: ls, rfl, by simp, List.forall_mem_cons.2 ⟨hodd, h'⟩⟩
      · rintro ⟨_ | ⟨p, ps⟩, qs, heq, hps, hqs⟩
        · obtain rfl : l :: ls = qs := heq
          exact (List.forall_mem_cons.1 hqs).2
        · obtain ⟨rfl, -⟩ := List.cons.inj heq
          exact absurd hodd (not_unterminated (hps l List.mem_cons_self))
    · rw [heq, List.forall_mem_cons, takeWhile_eq_iff ht, ih hls]
      constructor
      · rintro ⟨hplain, ps, qs, rfl, hps, hqs⟩
        exact ⟨l :: ps, qs, rfl, List.forall_mem_cons.2 ⟨hplain, hps⟩, hqs⟩
      · rintro ⟨_ | ⟨p, ps⟩, qs, heq, hps, hqs⟩
        · obtain rfl : l :: ls = qs := heq
          exact absurd (hqs l List.mem_cons_self) heven
        · obtain ⟨rfl, rfl⟩ := List.cons.inj heq
          obtain ⟨hplain, hps⟩ := List.forall_mem_cons.1 hps
          exact ⟨hplain, ps, qs, rfl, hps, hqs⟩

theorem handedBy_left_plain {ls : List (List UInt8)} (h : ∀ l ∈ ls, NoTerminator l)
    (heq : ∀ p ∈ handedBy [LF] ls, p.1 = p.2) : handedBy [LF] ls = [] := by
  induction ls with
  | nil => rfl
  | cons l ls ih =>
    obtain ⟨hl, hls⟩ := List.forall_mem_cons.1 h
    rcases handedBy_cons [LF] ls hl with ⟨-, hnext⟩ | ⟨-, t, ht, hnext⟩
    · rw [hnext] at heq ⊢
      exact ih hls heq
    · rw [hnext] at heq
      exact absurd (heq _ List.mem_cons_self) (takeWhile_ne ht)

/-- The lines handed over as they are, are plain. -/
theorem handedBy_plain {ls : List (List UInt8)} (h : ∀ l ∈ ls, NoTerminator l)
    (heq : ∀ p ∈ handedBy [] ls, p.1 = p.2) : ∀ p ∈ handedBy [] ls, Plain p.2 := by
  induction ls with
  | nil => exact fun p hp => absurd hp List.not_mem_nil
  | cons l ls ih =>
    obtain ⟨hl, hls⟩ := List.forall_mem_cons.1 h
    rcases handedBy_cons [] ls hl with ⟨-, hnext⟩ | ⟨-, t, ht, hnext⟩
    · rw [hnext] at heq ⊢
      rw [handedBy_left_plain hls heq]
      exact fun p hp => absurd hp List.not_mem_nil
    · rw [hnext, List.forall_mem_cons] at heq
      rw [hnext, List.forall_mem_cons]
      exact ⟨(takeWhile_eq_iff ht).1 heq.1, ih hls heq.2⟩

/-! ## Runs -/

/-- The line of the stream that was terminated last when the string was handed over. -/
def Handed.line (h : Handed) : List UInt8 := (splitLines h.stream).lines.getLast?.getD []

/-- Every string handed to `cmd_rec` is the line that has just been sent, and this is neither too
long nor has a CR. -/
def WholeLines (s : Receiver) : Prop :=
  ∀ h ∈ s.handed, h.text = h.line ∧ h.line.length < usartRecLen ∧ CR ∉ h.line

/-- A `usmart_scan` has run since the last terminator. -/
def Scanned (s : Receiver) : Prop := [CR, LF] <:+ s.stream → s.scanned = true

/-- `usmart_scan` runs between two lines. -/
def Paced (s : Receiver) : Action → Prop
  | .rx _ => Scanned s
  | _ => True

instance (s : Receiver) : Decidable (Scanned s) := inferInstanceAs (Decidable (_ → _))

instance (s : Receiver) : (a : Action) → Decidable (Paced s a)
  | .rx _ => inferInstanceAs (Decidable (Scanned s))
  | .scan | .hand | .clear => isTrue trivial

theorem handedBy_concat (l : List UInt8) (ls : List (List UInt8)) : ∀ c, handedBy c (ls ++ [l]) =
    handedBy c ls ++ match feed (.text (leftBy c ls)) l with
      | .text t => [(t.takeWhile (· ≠ 0), l)]
      | _ => [] := by
  induction ls with
  | nil =>
    intro c
    rw [List.nil_append, handedBy, handedBy, leftBy]
    cases feed (.text c) l <;> rfl
  | cons l' ls ih =>
    intro c
    rw [List.cons_append, handedBy, handedBy, leftBy]
    cases feed (.text c) l' with
    | text t => exact congrArg _ (ih [])
    | cr t => exact ih [LF]
    | full t => exact ih [LF]

theorem leftBy_concat (l : List UInt8) (ls : List (List UInt8)) : ∀ c, leftBy c (ls ++ [l]) =
    match feed (.text (leftBy c ls)) l with
      | .text _ => []
      | _ => [LF] := by
  induction ls with
  | nil =>
    intro c
    rw [List.nil_append, leftBy, leftBy]
    cases feed (.text c) l <;> rfl
  | cons l' ls ih =>
    intro c
    rw [List.cons_append, leftBy, leftBy]
    cases feed (.text c) l' with
    | text t => exact ih []
    | cr t => exact ih [LF]
    | full t => exact ih [LF]

def Receiver.pairs (s : Receiver) : List (List UInt8 × List UInt8) :=
  s.handed.reverse.map fun h => (h.text, h.line)

/-- The lines that were scanned have led to the strings handed over. -/
inductive Tally (s : Receiver) : Frame → Prop
  | settled (hphase : s.phase = .idle) (hpairs : s.pairs = handedBy [] (splitLines s.stream).lines) :
      Tally s (feed (.text (leftBy [] (splitLines s.stream).lines)) (splitLines s.stream).rest)
  | pending (ls : List (List UInt8)) (l t : List UInt8) (hphase : s.phase ≠ .executing)
      (hsplit : splitLines s.stream = ⟨ls ++ [l], []⟩) (hfeed : feed (.text (leftBy [] ls)) l = .text t)
      (hscanned : s.scanned = false) (hpairs : s.pairs = handedBy [] ls) : Tally s (.full t)
  | executing (ls : List (List UInt8)) (l t : List UInt8) (hphase : s.phase = .executing)
      (hsplit : splitLines s.stream = ⟨ls ++ [l], []⟩) (hleft : leftBy [] (ls ++ [l]) = [])
      (hscanned : s.scanned = false) (hpairs : s.pairs = handedBy [] (ls ++ [l])) : Tally s (.full t)

theorem suffix_of_split {stream l : List UInt8} {ls : List (List UInt8)}
    (h : splitLines stream = ⟨ls ++ [l], []⟩) : [CR, LF] <:+ stream := by
  rw [← splitLines_join stream, h]
  exact ⟨ls.flatMap (· ++ [CR, LF]) ++ l, by simp⟩

theorem Tally.settled_of {s : Receiver} {S : Split} (hphase : s.phase = .idle)
    (hsplit : splitLines s.stream = S) (hpairs : s.pairs = handedBy [] S.lines) :
    Tally s (feed (.text (leftBy [] S.lines)) S.rest) := by
  subst hsplit
  exact .settled hphase hpairs

/-- A byte arrives between two scans. -/
theorem Tally.rx {s s' : Receiver} {b : UInt8} (hphase : s.phase = .idle)
    (hpairs : s.pairs = handedBy [] (splitLines s.stream).lines) (hs : step (.rx b) s = some s') :
    Tally s' ((feed (.text (leftBy [] (splitLines s.stream).lines)) (splitLines s.stream).rest).rx b) := by
  obtain ⟨hstream, hphase', hpairs', hscanned⟩ :
      s'.stream = s.stream ++ [b] ∧ s'.phase = .idle ∧ s'.pairs = s.pairs ∧ s'.scanned = false := by
    obtain rfl := Option.some.inj hs
    exact ⟨rfl, hphase, rfl, rfl⟩
  have hsplit := splitLines_concat s.stream b
  have hrest := (splitLines_noTerminator s.stream).2
  rw [← hstream] at hsplit
  rw [hpairs] at hpairs'
  generalize splitLines s.stream = S at hsplit hrest hpairs' ⊢
  rw [Split.add] at hsplit
  split_ifs at hsplit with hterm
  · obtain ⟨rfl, hcr⟩ := hterm
    rw [← List.dropLast_append_getLast? CR hcr, feed_concat]
    have hl : NoTerminator S.rest.dropLast :=
      fun hin => hrest (hin.trans (List.dropLast_prefix _).isInfix)
    rcases feed_text (leftBy [] S.lines) hl with ⟨-, t, ht⟩ | ⟨-, t, ht⟩
    · -- the CR of the terminator is taken for the second of two
      have hleft : leftBy [] (S.lines ++ [S.rest.dropLast]) = [LF] := by rw [leftBy_concat, ht]
      have hhanded : handedBy [] (S.lines ++ [S.rest.dropLast]) = handedBy [] S.lines := by
        rw [handedBy_concat, ht, List.append_nil]
      have htally := Tally.settled_of hphase' hsplit (hpairs'.trans hhanded.symm)
      rw [hleft] at htally
      rw [ht]
      exact htally
    · rw [ht]
      exact .pending _ _ t (by rw [hphase']; simp) hsplit ht hscanned hpairs'
  · rw [← feed_concat]
    exact .settled_of hphase' hsplit hpairs'

/-- Between two scans no complete line is in the buffer. -/
theorem settled_not_full (s : Receiver) :
    ∀ t, feed (.text (leftBy [] (splitLines s.stream).lines)) (splitLines s.stream).rest ≠ .full t := by
  intro t ht
  rcases feed_text (leftBy [] (splitLines s.stream).lines) (splitLines_noTerminator s.stream).2 with
    ⟨-, t', ht'⟩ | ⟨-, t', ht'⟩
  · rw [ht] at ht'
    cases ht'
  · rw [ht] at ht'
    cases ht'

/-- A scan that sees the flag, and one that does not. -/
theorem Tally.scan {s s' : Receiver} {f : Frame} (h : Tally s f) (hrep : Represents s.uart f)
    (hs : Usmart.step .scan s = some s') : Tally s' f := by
  simp only [Usmart.step] at hs
  split_ifs at hs with hidle hflag
  · obtain rfl := Option.some.inj hs
    have hfull := hrep.flag.1 hflag
    cases h with
    | settled hphase hpairs => exact absurd hfull (settled_not_full s _)
    | pending ls l t hphase hsplit hfeed hscanned hpairs =>
      exact .pending ls l t (by simp) hsplit hfeed hscanned hpairs
    | executing ls l t hphase hsplit hleft hscanned hpairs =>
      rw [hphase] at hidle
      cases hidle
  · obtain rfl := Option.some.inj hs
    cases h with
    | settled hphase hpairs => exact .settled hphase hpairs
    | pending ls l t hphase hsplit hfeed hscanned hpairs => exact absurd (hrep.flag.2 rfl) hflag
    | executing ls l t hphase hsplit hleft hscanned hpairs => exact absurd (hrep.flag.2 rfl) hflag

theorem Receiver.pairs_hand {s : Receiver} {t l : List UInt8} {ls : List (List UInt8)}
    (hrep : Represents s.uart (.full t)) (hsplit : splitLines s.stream = ⟨ls ++ [l], []⟩) :
    s.hand.pairs = s.pairs ++ [(t.takeWhile (· ≠ 0), l)] := by
  rw [hrep.hand]
  simp [Receiver.pairs, Handed.line, hsplit]

/-- The string is handed over. -/
theorem Tally.hand {s s' : Receiver} {f : Frame} (h : Tally s f) (hinv : Inv s f)
    (hs : Usmart.step .hand s = some s') : Tally s' f := by
  simp only [Usmart.step] at hs
  split_ifs at hs with hfound
  obtain rfl := Option.some.inj hs
  cases h with
  | settled hphase hpairs =>
    rw [hphase] at hfound
    cases hfound
  | pending ls l t hphase hsplit hfeed hscanned hpairs =>
    refine .executing ls l t rfl hsplit ?_ hscanned ?_
    · rw [leftBy_concat, hfeed]
    · rw [Receiver.pairs_hand hinv.represents hsplit, hpairs, handedBy_concat, hfeed]
  | executing ls l t hphase hsplit hleft hscanned hpairs =>
    rw [hphase] at hfound
    cases hfound

/-- The state is cleared after the command. -/
theorem Tally.clear {s s' : Receiver} {f : Frame} (h : Tally s f) (hs : Usmart.step .clear s = some s') :
    Tally s' (.text []) := by
  simp only [Usmart.step] at hs
  split_ifs at hs with hexec
  obtain rfl := Option.some.inj hs
  cases h with
  | settled hphase hpairs =>
    rw [hphase] at hexec
    cases hexec
  | pending ls l t hphase hsplit hfeed hscanned hpairs => exact absurd hexec hphase
  | executing ls l t hphase hsplit hleft hscanned hpairs =>
    have htally := Tally.settled_of (s := ⟨{ s.uart with sta := 0 }, .idle, true, [], s.stream, s.handed⟩)
      rfl hsplit hpairs
    rw [hleft] at htally
    exact htally

theorem Tally.step {s s' : Receiver} {f : Frame} {a : Action} (h : Tally s f) (hinv : Inv s f)
    (hg : Paced s a) (hs : Usmart.step a s = some s') : Tally s' (f.step a) := by
  cases a with
  | rx b =>
    cases h with
    | settled hphase hpairs => exact Tally.rx hphase hpairs hs
    | pending ls l t hphase hsplit hfeed hscanned hpairs =>
      exact absurd (hg (suffix_of_split hsplit)) (by simp [hscanned])
    | executing ls l t hphase hsplit hleft hscanned hpairs =>
      exact absurd (hg (suffix_of_split hsplit)) (by simp [hscanned])
  | scan => exact h.scan hinv.represents hs
  | hand => exact h.hand hinv hs
  | clear => exact h.clear hs

theorem tally_start (buf : ℕ → UInt8) : Tally (start buf) (.text []) := .settled rfl rfl

theorem tally_of_run {buf : ℕ → UInt8} {as : List Action} {s : Receiver} (h : run step as (start buf) = some s)
    (hpace : Guarded step Paced (start buf) as) : ∃ f, Tally s f := by
  obtain ⟨f, -, htally⟩ : ∃ f, Inv s f ∧ Tally s f := by
    refine hpace.run_inv (I := fun s => ∃ f, Inv s f ∧ Tally s f) ?_ ⟨_, inv_start buf, tally_start buf⟩ h
    rintro s a s' ⟨f, hinv, htally⟩ hg hs
    exact ⟨_, hinv.step hs, htally.step hinv hg hs⟩
  exact ⟨f, htally⟩

/-- The strings handed over come from the lines, in order. -/
theorem Tally.prefix_lines {s : Receiver} {f : Frame} (h : Tally s f) :
    s.pairs <+: handedBy [] (splitLines s.stream).lines := by
  cases h with
  | settled hphase hpairs => rw [hpairs]
  | pending ls l t hphase hsplit hfeed hscanned hpairs =>
    rw [hpairs, hsplit, handedBy_concat]
    exact List.prefix_append _ _
  | executing ls l t hphase hsplit hleft hscanned hpairs => rw [hpairs, hsplit]

/-- Once the last line is scanned, no string is missing. -/
theorem Tally.pairs_eq {s : Receiver} {f : Frame} (h : Tally s f) (hend : Scanned s) :
    s.pairs = handedBy [] (splitLines s.stream).lines := by
  cases h with
  | settled hphase hpairs => exact hpairs
  | pending ls l t hphase hsplit hfeed hscanned hpairs =>
    exact absurd (hend (suffix_of_split hsplit)) (by simp [hscanned])
  | executing ls l t hphase hsplit hleft hscanned hpairs =>
    exact absurd (hend (suffix_of_split hsplit)) (by simp [hscanned])

/-- **Whole lines only.**  So it is while the lines are sent well, and no longer once the first line
that breaks this has been scanned. -/
theorem wholeLines_iff {buf : ℕ → UInt8} {as : List Action} {s : Receiver}
    (h : run step as (start buf) = some s) (hpace : Guarded step Paced (start buf) as) :
    (WellSent (splitLines s.stream).lines → WholeLines s) ∧
      (Scanned s → (WholeLines s ↔ WellSent (splitLines s.stream).lines)) := by
  obtain ⟨f, htally⟩ := tally_of_run h hpace
  have hterm := (splitLines_noTerminator s.stream).1
  have hwell : WellSent (splitLines s.stream).lines → WholeLines s := by
    intro hwell h hh
    have hpair : (h.text, h.line) ∈ handedBy [] (splitLines s.stream).lines :=
      htally.prefix_lines.subset (List.mem_map.2 ⟨h, List.mem_reverse.2 hh, rfl⟩)
    have heq := (handedBy_iff hterm).2 hwell _ hpair
    have hplain := handedBy_plain hterm ((handedBy_iff hterm).2 hwell) _ hpair
    exact ⟨heq, hplain.1, hplain.2.1⟩
  refine ⟨hwell, fun hend => ⟨fun hwhole => (handedBy_iff hterm).1 fun p hp => ?_, hwell⟩⟩
  rw [← htally.pairs_eq hend] at hp
  obtain ⟨h, hh, rfl⟩ := List.mem_map.1 hp
  exact (hwhole h (List.mem_reverse.1 hh)).1

/-- The bytes `bs` are received, and then one line is scanned and executed. -/
def received (bs : List UInt8) : List Action := bs.map .rx ++ [.scan, .hand, .clear]

theorem ab_wholeLines : ∃ s, run step (received [0x61, 0x62, CR, LF]) (start fun _ => 0) = some s ∧
    s.handed.map Handed.text = [[0x61, 0x62]] ∧ WellSent (splitLines s.stream).lines ∧ WholeLines s := by
  have hrun : (run step (received [0x61, 0x62, CR, LF]) (start fun _ => 0)).map
      (fun s => (s.handed.map Handed.text, (splitLines s.stream).lines)) =
      some ([[0x61, 0x62]], [[0x61, 0x62]]) := by decide +kernel
  obtain ⟨s, hs, hsplit⟩ := Option.map_eq_some_iff.1 hrun
  obtain ⟨htext, hlines⟩ := Prod.mk.inj hsplit
  have hwell : WellSent (splitLines s.stream).lines := by
    rw [hlines]
    exact ⟨[[0x61, 0x62]], [], rfl, by simp [Plain, usartRecLen, CR], by simp⟩
  exact ⟨s, hs, htext, hwell, (wholeLines_iff hs (by decide +kernel)).1 hwell⟩

/-- A CR inside of a line: the end of the line is executed. -/
theorem not_wholeLine : ¬ ∀ (buf : ℕ → UInt8) (as : List Action) (s : Receiver),
    run step as (start buf) = some s → Guarded step Paced (start buf) as → WholeLines s := by
  intro h
  have hrun : (run step (received [0x61, CR, 0x62, 0x63, 0x64, CR, LF]) (start fun _ => 0)).map
      (fun s => s.handed.map fun h => (h.text, h.line)) =
      some [([0x63, 0x64], [0x61, CR, 0x62, 0x63, 0x64])] := by decide +kernel
  obtain ⟨s, hs, hpairs⟩ := Option.map_eq_some_iff.1 hrun
  obtain ⟨x, hx, hpair⟩ := List.mem_map.1 (hpairs ▸ List.mem_singleton_self _)
  obtain ⟨htext, hline⟩ := Prod.mk.inj hpair
  have := (h _ _ _ hs (by decide +kernel) x hx).1
  rw [htext, hline] at this
  revert this
  decide

end DataRecorder.Usmart
