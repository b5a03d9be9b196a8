/-
  Message queues deliver what was sent.

  Whatever the threads do, and wherever they are interrupted, every slot is queued,
  empty, or in the hands of one thread (`Linked`), and its bytes are those of the
  message it stands for (`Copied`).  So the events of a run are a history of a
  bounded first-in-first-out queue.

  * `inv_step`: every step keeps the invariant;
  * `events_fifo`: the history.
-/
import DataRecorder.Kernel.MessageQueue

namespace DataRecorder.Kernel

open Base

/-- The slot that a call works on. -/
def Call.slot : Call → Option ℕ
  | .fill x _ _ _ => some x
  | .drain x _ _ => some x
  | _ => none

/-- A slot begins with the bytes of `m`. -/
def Holds (bytes : ℕ → UInt8) (m : List UInt8) : Prop := ∀ k b, m[k]? = some b → bytes k = b

theorem Holds.take {bytes : ℕ → UInt8} {m : List UInt8} (h : Holds bytes m) (n : ℕ) : Holds bytes (m.take n) := by
  intro k b hk
  rw [List.getElem?_take] at hk
  split_ifs at hk
  exact h k b hk

theorem Holds.concat {bytes : ℕ → UInt8} {m : List UInt8} (h : Holds bytes m) :
    Holds bytes (m ++ [bytes m.length]) := by
  intro k b hk
  rcases Nat.lt_or_ge k m.length with hlt | hge
  · rw [List.getElem?_append_left hlt] at hk
    exact h k b hk
  · obtain rfl : k = m.length := by
      have hlen := (List.getElem?_eq_some_iff.1 hk).1
      rw [List.length_append, List.length_singleton] at hlen
      omega
    rw [List.getElem?_concat_length] at hk
    exact Option.some.inj hk

/-- Two texts that a slot begins with agree. -/
theorem Holds.agree {bytes : ℕ → UInt8} {m out : List UInt8} (hm : Holds bytes m) (ho : Holds bytes out) :
    out.take m.length = m.take out.length := by
  apply List.ext_getElem (by simp [Nat.min_comm])
  intro k hk hk'
  rw [List.length_take] at hk hk'
  rw [List.getElem_take, List.getElem_take, ← hm k _ (List.getElem?_eq_getElem (by omega)),
    ← ho k _ (List.getElem?_eq_getElem (by omega))]

variable {ι : Type*}

/-- The slots and their links: `q` are the queued ones, `f` the empty ones. -/
structure Linked (s : MessageQueue ι) (q f : List ℕ) : Prop where
  queued : Chain s.next s.head q
  tail : s.tail = q.getLast?
  empty : Chain s.next s.free f
  entry : s.entry = q.length
  held : Held s.maxMsgs.toNat (Call.slot ∘ s.calls) (q ++ f)
  unlinked : ∀ i x b k, s.calls i = .fill x b false k → s.next x = none

section
variable {s : MessageQueue ι} {q f : List ℕ} {i j : ι} {x y : ℕ}

/-- The calls of the other threads work on other slots. -/
theorem Linked.other (hl : Linked s q f) (hj : j ≠ i) (hi : (s.calls i).slot = some x)
    (hy : (s.calls j).slot = some y) : y ≠ x := by
  rintro rfl
  exact hj (hl.held.owner j i y hy hi)

theorem Linked.unqueued (hl : Linked s q f) (hi : (s.calls i).slot = some x) : x ∉ q ∧ x ∉ f := by
  have := hl.held.apart i x hi
  rwa [List.mem_append, not_or] at this

end

/-- The bytes in the slots. -/
structure Copied (s : MessageQueue ι) (q : List ℕ) (a : Fifo ι) : Prop where
  queued : List.Forall₂ (fun x m => Holds (s.pool x) m) q a.queue
  filled : ∀ i x b u k, s.calls i = .fill x b u k → Holds (s.pool x) (b.take k)
  drained : ∀ i x size out, s.calls i = .drain x size out →
    Holds (s.pool x) out ∧ ∃ m, a.hold i = some (m, size) ∧ Holds (s.pool x) m

variable [DecidableEq ι]

/-- The events up to here are a history of a queue, now `a`. -/
def History (s : MessageQueue ι) (a : Fifo ι) : Prop :=
  run (Fifo.step s.msgSize.toNat s.maxMsgs.toNat) s.events Fifo.empty = some a

structure Inv (s : MessageQueue ι) (q f : List ℕ) (a : Fifo ι) : Prop where
  fault : s.fault = false
  linked : Linked s q f
  copied : Copied s q a
  history : History s a

theorem History.log {s : MessageQueue ι} {a a' : Fifo ι} {e : Event ι} (h : History s a)
    (he : Fifo.step s.msgSize.toNat s.maxMsgs.toNat e a = some a') : History (s.log e) a' :=
  run_snoc_some.2 ⟨a, h, he⟩

variable {s s' : MessageQueue ι} {q f : List ℕ} {a : Fifo ι} {i : ι} {x : ℕ}

theorem slot_goto (c : Call) :
    Call.slot ∘ (s.goto i c).calls = Function.update (Call.slot ∘ s.calls) i c.slot :=
  Function.comp_update ..

/-! ## Steps that leave the slots alone -/

/-- Only calls without a slot change, and errors happen. -/
structure Quiet (s s' : MessageQueue ι) : Prop where
  same : s'.msgSize = s.msgSize ∧ s'.maxMsgs = s.maxMsgs ∧ s'.next = s.next ∧ s'.pool = s.pool ∧ s'.head = s.head ∧
    s'.tail = s.tail ∧ s'.free = s.free ∧ s'.entry = s.entry ∧ s'.fault = s.fault
  calls : ∀ i, s'.calls i = s.calls i ∨ (s'.calls i).slot = none ∧ (s.calls i).slot = none
  events : ∀ a, History s a → History s' a

theorem Quiet.trans {s'' : MessageQueue ι} (h : Quiet s s') (h' : Quiet s' s'') : Quiet s s'' := by
  refine ⟨?_, fun i => ?_, fun a ha => h'.events a (h.events a ha)⟩
  · simp only [h'.same, h.same, and_self]
  · rcases h'.calls i with hi | ⟨hi, hi'⟩
    · rw [hi]
      exact h.calls i
    · rcases h.calls i with hj | ⟨-, hj⟩
      · exact Or.inr ⟨hi, hj ▸ hi'⟩
      · exact Or.inr ⟨hi, hj⟩

theorem Quiet.inv (hq : Quiet s s') (h : Inv s q f a) : Inv s' q f a := by
  obtain ⟨hfault, hl, hc, ha⟩ := h
  obtain ⟨⟨-, hmax, hnext, hpool, hhead, htail, hfree, hentry, hfault'⟩, hcalls, hevents⟩ := hq
  have hslot : Call.slot ∘ s'.calls = Call.slot ∘ s.calls := by
    funext i
    rcases hcalls i with hi | ⟨hi, hi'⟩
    · exact congrArg Call.slot hi
    · exact hi.trans hi'.symm
  -- a call with a slot is as before
  have hback (i : ι) {x : ℕ} (hx : (s'.calls i).slot = some x) : s.calls i = s'.calls i := by
    rcases hcalls i with hi | ⟨hi, -⟩
    · exact hi.symm
    · rw [hi] at hx
      cases hx
  refine ⟨hfault'.trans hfault, ⟨?_, ?_, ?_, ?_, ?_, ?_⟩, ⟨?_, ?_, ?_⟩, hevents a ha⟩
  · rw [hnext, hhead]; exact hl.queued
  · rw [htail]; exact hl.tail
  · rw [hnext, hfree]; exact hl.empty
  · rw [hentry]; exact hl.entry
  · rw [hmax, hslot]; exact hl.held
  · intro i x b k hi
    rw [hnext]
    exact hl.unlinked i x b k ((hback i (by rw [hi]; rfl)).trans hi)
  · rw [hpool]; exact hc.queued
  · intro i x b u k hi
    rw [hpool]
    exact hc.filled i x b u k ((hback i (by rw [hi]; rfl)).trans hi)
  · intro i x size out hi
    rw [hpool]
    exact hc.drained i x size out ((hback i (by rw [hi]; rfl)).trans hi)

theorem quiet_lists (l m : List ι) : Quiet s { s with suspendThread := l, suspendSenderThread := m } :=
  ⟨by simp, fun _ => Or.inl rfl, fun _ ha => ha⟩

theorem quiet_goto {c : Call} (hi : (s.calls i).slot = none) (hc : c.slot = none) : Quiet s (s.goto i c) := by
  refine ⟨by simp [MessageQueue.goto], fun j => ?_, fun a ha => ha⟩
  by_cases hj : j = i
  · subst hj
    exact Or.inr ⟨by simpa [MessageQueue.goto] using hc, hi⟩
  · exact Or.inl (Function.update_of_ne hj ..)

theorem quiet_fail {e : ℤ} (hi : (s.calls i).slot = none) : Quiet s (s.fail i e) :=
  (quiet_goto hi rfl).trans ⟨by simp [MessageQueue.fail, MessageQueue.log], fun _ => Or.inl rfl, fun _ ha => ha.log rfl⟩

/-- A suspended thread is taken off its list and its call fails. -/
theorem quiet_goto_lists {l m : List ι} {e : ℤ} (hi : (s.calls i).slot = none) :
    Quiet s ({ s with suspendThread := l, suspendSenderThread := m }.fail i e) :=
  (quiet_lists l m).trans (quiet_fail hi)

theorem quiet_resumed (j : ι) : Quiet s (s.goto j (s.calls j).resumed) := by
  refine ⟨by simp [MessageQueue.goto], fun k => ?_, fun a ha => ha⟩
  by_cases hk : k = j
  · subst hk
    cases hc : s.calls k with
    | wait r => exact Or.inr ⟨by simp [MessageQueue.goto, Call.resumed, Call.slot], rfl⟩
    | idle | enter | fill | drain => exact Or.inl (by simp [MessageQueue.goto, Call.resumed])
  · exact Or.inl (Function.update_of_ne hk ..)

theorem quiet_resumeReceiver : Quiet s s.resumeReceiver := by
  unfold MessageQueue.resumeReceiver
  split
  · exact quiet_lists _ _
  · exact (quiet_resumed _).trans (quiet_lists _ _)

theorem quiet_resumeSender : Quiet s s.resumeSender := by
  unfold MessageQueue.resumeSender
  split
  · exact quiet_lists _ _
  · exact (quiet_resumed _).trans (quiet_lists _ _)

/-! ## Steps that move a slot -/

theorem goto_calls {c d : Call} {j : ι} (h : (s.goto i c).calls j = d) :
    (j = i ∧ c = d) ∨ (j ≠ i ∧ s.calls j = d) := by
  change Function.update s.calls i c j = d at h
  by_cases hj : j = i
  · subst hj
    exact Or.inl ⟨rfl, by rwa [Function.update_self] at h⟩
  · exact Or.inr ⟨hj, by rwa [Function.update_of_ne hj] at h⟩

/-- Slots on a list keep their bytes when another one is written. -/
theorem holds_elsewhere {pool : ℕ → ℕ → UInt8} {bytes : ℕ → UInt8} : ∀ {q : List ℕ} {ms : List (List UInt8)},
    List.Forall₂ (fun y m => Holds (pool y) m) q ms → x ∉ q →
      List.Forall₂ (fun y m => Holds (Function.update pool x bytes y) m) q ms
  | [], [], _, _ => .nil
  | y :: q, m :: ms, .cons hy hq, hx => by
    rw [List.mem_cons, not_or] at hx
    refine .cons ?_ (holds_elsewhere hq hx.2)
    rwa [Function.update_of_ne (Ne.symm hx.1)]

theorem inv_reserve {b : List UInt8} {u : Bool} (h : Inv s q (x :: f) a) (hi : (s.calls i).slot = none) :
    Inv (s.reserve i b u x) q f a := by
  obtain ⟨hfault, hl, hc, ha⟩ := h
  have hf := hl.empty.2
  have hperm : (q ++ x :: f).Perm (x :: (q ++ f)) := List.perm_middle
  have hxqf := (List.nodup_cons.1 (hperm.nodup_iff.1 hl.held.nodup)).1
  rw [List.mem_append, not_or] at hxqf
  refine ⟨hfault, ⟨?_, hl.tail, ?_, hl.entry, ?_, ?_⟩, ⟨hc.queued, ?_, ?_⟩, ha⟩
  · cases u with
    | true => exact hl.queued
    | false => exact hl.queued.update hxqf.1
  · cases u with
    | true => exact hf
    | false => exact hf.update hxqf.2
  · have hs : Call.slot ∘ (s.goto i (.fill x b u 0)).calls = Function.update (Call.slot ∘ s.calls) i (some x) :=
      slot_goto _
    exact hs ▸ hl.held.take hperm hi
  · intro j y b' k hj
    rcases goto_calls hj with ⟨-, hj⟩ | ⟨-, hj⟩
    · cases hj
      exact Function.update_self ..
    · have hy := hl.unlinked j y b' k hj
      cases u with
      | true => exact hy
      | false =>
        show Function.update s.next x none y = none
        rw [Function.update_apply, hy, ite_self]
  · intro j y b' u' k hj
    rcases goto_calls hj with ⟨-, hj⟩ | ⟨-, hj⟩
    · cases hj
      intro k b hk
      simp at hk
    · exact hc.filled j y b' u' k hj
  · intro j y size out hj
    rcases goto_calls hj with ⟨-, hj⟩ | ⟨-, hj⟩
    · cases hj
    · exact hc.drained j y size out hj

/-- A thread goes on with its slot. -/
theorem slot_goto_same {c : Call} (h : (s.calls i).slot = c.slot) :
    Call.slot ∘ (s.goto i c).calls = Call.slot ∘ s.calls := by
  rw [slot_goto, ← h]
  exact Function.update_eq_self i _

theorem inv_fill {b : List UInt8} {u : Bool} {k : ℕ} {c : UInt8} (h : Inv s q f a) (hi : s.calls i = .fill x b u k)
    (hc : b[k]? = some c) :
    Inv { s.goto i (.fill x b u (k + 1)) with
      pool := Function.update s.pool x (Function.update (s.pool x) k c) } q f a := by
  obtain ⟨hfault, hl, hcop, ha⟩ := h
  have hslot : (s.calls i).slot = some x := by rw [hi]; rfl
  refine ⟨hfault, ⟨hl.queued, hl.tail, hl.empty, hl.entry, ?_, ?_⟩, ⟨?_, ?_, ?_⟩, ha⟩
  · have hs : Call.slot ∘ (s.goto i (.fill x b u (k + 1))).calls = Call.slot ∘ s.calls := slot_goto_same hslot
    exact hs ▸ hl.held
  · intro j y b' k' hj
    rcases goto_calls hj with ⟨-, hj⟩ | ⟨-, hj⟩
    · cases hj
      exact hl.unlinked i x b k hi
    · exact hl.unlinked j y b' k' hj
  · exact holds_elsewhere hcop.queued (hl.unqueued hslot).1
  · intro j y b' u' k' hj
    rcases goto_calls hj with ⟨-, hj⟩ | ⟨hne, hj⟩
    · cases hj
      intro n d hd
      simp only [Function.update_self]
      by_cases hn : n = k
      · subst hn
        rw [List.getElem?_take_of_lt (Nat.lt_succ_self n), hc] at hd
        rw [Function.update_self]
        exact Option.some.inj hd
      · rw [Function.update_of_ne hn]
        refine hcop.filled i x b u k hi n d ?_
        rw [List.getElem?_take] at hd ⊢
        split_ifs at hd with hlt
        rwa [if_pos (by omega)]
    · have hy : y ≠ x := hl.other hne hslot (by rw [hj]; rfl)
      simp only [Function.update_of_ne hy]
      exact hcop.filled j y b' u' k' hj
  · intro j y size out hj
    rcases goto_calls hj with ⟨-, hj⟩ | ⟨hne, hj⟩
    · cases hj
    · have hy : y ≠ x := hl.other hne hslot (by rw [hj]; rfl)
      simp only [Function.update_of_ne hy]
      exact hcop.drained j y size out hj

theorem inv_drain {size : ℕ} {out : List UInt8} (h : Inv s q f a) (hi : s.calls i = .drain x size out) :
    Inv (s.goto i (.drain x size (out ++ [s.pool x out.length]))) q f a := by
  obtain ⟨hfault, hl, hcop, ha⟩ := h
  have hslot : (s.calls i).slot = some x := by rw [hi]; rfl
  refine ⟨hfault, ⟨hl.queued, hl.tail, hl.empty, hl.entry, ?_, ?_⟩, ⟨hcop.queued, ?_, ?_⟩, ha⟩
  · rw [slot_goto_same hslot]
    exact hl.held
  · intro j y b k hj
    rcases goto_calls hj with ⟨-, hj⟩ | ⟨-, hj⟩
    · cases hj
    · exact hl.unlinked j y b k hj
  · intro j y b u k hj
    rcases goto_calls hj with ⟨-, hj⟩ | ⟨-, hj⟩
    · cases hj
    · exact hcop.filled j y b u k hj
  · intro j y size' out' hj
    rcases goto_calls hj with ⟨hji, hcall⟩ | ⟨-, hj⟩
    · cases hcall
      obtain ⟨ho, hm⟩ := hcop.drained i x size out hi
      exact ⟨ho.concat, hji ▸ hm⟩
    · exact hcop.drained j y size' out' hj

/-- The first queued slot goes to the thread `i`. -/
theorem inv_take {size : ℕ} (h : Inv s (x :: q) f a) (hi : (s.calls i).slot = none) :
    ∃ a', Inv { (s.goto i (.drain x size [])).log (.take i size) with
      head := s.next x
      tail := if s.tail = some x then none else s.tail
      entry := s.entry - 1 } q f a' := by
  obtain ⟨queue, hold⟩ := a
  obtain ⟨hfault, hl, hcop, ha⟩ := h
  have hq := hl.queued.2
  obtain ⟨-, -⟩ | ⟨hm, hms⟩ := hcop.queued
  rename_i m ms
  obtain ⟨hxf, hnd⟩ := List.nodup_cons.1 (List.cons_append ▸ hl.held.nodup)
  have hxq : x ∉ q := fun hmem => hxf (List.mem_append_left f hmem)
  refine ⟨⟨ms, Function.update hold i (some (m, size))⟩, hfault, ⟨hq, ?_, hl.empty, ?_, ?_, ?_⟩, ⟨hms, ?_, ?_⟩, ?_⟩
  · show (if s.tail = some x then none else s.tail) = q.getLast?
    rw [hl.tail]
    cases q with
    | nil => simp
    | cons y q =>
      rw [List.getLast?_cons_cons, if_neg]
      exact fun he => hxq (List.mem_of_getLast? he)
  · show s.entry - 1 = q.length
    rw [hl.entry, List.length_cons, Nat.add_sub_cancel]
  · have hs : Call.slot ∘ (s.goto i (.drain x size [])).calls = Function.update (Call.slot ∘ s.calls) i (some x) :=
      slot_goto _
    exact hs ▸ hl.held.take (List.Perm.refl _) hi
  · intro j y b k hj
    rcases goto_calls hj with ⟨-, hj⟩ | ⟨-, hj⟩
    · cases hj
    · exact hl.unlinked j y b k hj
  · intro j y b u k hj
    rcases goto_calls hj with ⟨-, hj⟩ | ⟨-, hj⟩
    · cases hj
    · exact hcop.filled j y b u k hj
  · intro j y size' out hj
    rcases goto_calls hj with ⟨hji, hcall⟩ | ⟨hne, hj⟩
    · cases hcall
      exact ⟨fun k b hk => by simp at hk, m, by rw [hji]; exact Function.update_self .., hm⟩
    · obtain ⟨ho, m', hm', hb⟩ := hcop.drained j y size' out hj
      exact ⟨ho, m', (Function.update_of_ne hne ..).trans hm', hb⟩
  · exact History.log ha rfl

/-- The thread `i` has copied its message, and its slot is empty again. -/
theorem inv_release {size : ℕ} {out : List UInt8} (h : Inv s q f a) (hi : s.calls i = .drain x size out)
    (hlen : out.length = min size s.msgSize.toNat) : ∃ a', Inv { (s.goto i .idle).log (.give i out) with
      next := Function.update s.next x s.free
      free := some x } q (x :: f) a' := by
  obtain ⟨hfault, hl, hcop, ha⟩ := h
  have hslot : (s.calls i).slot = some x := by rw [hi]; rfl
  obtain ⟨hxq, hxf⟩ := hl.unqueued hslot
  obtain ⟨ho, m, hm, hb⟩ := hcop.drained i x size out hi
  refine ⟨{ a with hold := Function.update a.hold i none }, hfault,
    ⟨hl.queued.update hxq, hl.tail, hl.empty.push hxf, hl.entry, ?_, ?_⟩, ⟨hcop.queued, ?_, ?_⟩, ?_⟩
  · have hs : Call.slot ∘ (s.goto i .idle).calls = Function.update (Call.slot ∘ s.calls) i none := slot_goto _
    exact hs ▸ hl.held.give hslot List.perm_middle
  · intro j y b k hj
    rcases goto_calls hj with ⟨-, hj⟩ | ⟨hne, hj⟩
    · cases hj
    · have hy : y ≠ x := hl.other hne hslot (by rw [hj]; rfl)
      exact (Function.update_of_ne hy ..).trans (hl.unlinked j y b k hj)
  · intro j y b u k hj
    rcases goto_calls hj with ⟨-, hj⟩ | ⟨-, hj⟩
    · cases hj
    · exact hcop.filled j y b u k hj
  · intro j y size' out' hj
    rcases goto_calls hj with ⟨-, hj⟩ | ⟨hne, hj⟩
    · cases hj
    · obtain ⟨ho', m', hm', hb'⟩ := hcop.drained j y size' out' hj
      exact ⟨ho', m', (Function.update_of_ne hne ..).trans hm', hb'⟩
  · refine History.log ha ?_
    simp only [Fifo.step, hm]
    exact if_pos ⟨hlen, hb.agree ho⟩

section
omit [DecidableEq ι]

theorem link_next_none {b : List UInt8} (ht : s.tail = none) : (s.link x b false).next = s.next := by
  simp [MessageQueue.link, MessageQueue.log, ht]

theorem link_next_some {b : List UInt8} {y : ℕ} (ht : s.tail = some y) :
    (s.link x b false).next = Function.update s.next y (some x) := by
  simp [MessageQueue.link, MessageQueue.log, ht]

/-- A slot in hand becomes the last one of the queue, or the first one. -/
theorem chain_link (hl : Linked s q f) (hi : (s.calls i).slot = some x) {b : List UInt8} {u : Bool}
    (hx : u = false → s.next x = none) :
    ∃ q', q'.Perm (x :: q) ∧ q' = (if u then x :: q else q ++ [x]) ∧
      Chain (s.link x b u).next (s.link x b u).head q' ∧ (s.link x b u).tail = q'.getLast? ∧
      ∀ y, y ∉ q → y ≠ x → (s.link x b u).next y = s.next y := by
  obtain ⟨hxq, hxf⟩ := hl.unqueued hi
  cases u with
  | true =>
    refine ⟨x :: q, .refl _, rfl, hl.queued.push hxq, ?_, fun y _ hy => Function.update_of_ne hy ..⟩
    show (if s.tail = none then some x else s.tail) = (x :: q).getLast?
    rw [hl.tail]
    cases q with
    | nil => simp
    | cons y q => simp [List.getLast?_cons_cons]
  | false =>
    have hhead : (s.link x b false).head = if s.head = none then some x else s.head := rfl
    refine ⟨q ++ [x], List.perm_append_singleton x q, rfl, ?_, List.getLast?_concat.symm, ?_⟩
    · have hh := hl.queued.head_eq
      cases hlast : q.getLast? with
      | none =>
        rw [hhead, link_next_none (hl.tail.trans hlast)]
        rw [List.getLast?_eq_none_iff] at hlast
        subst hlast
        rw [if_pos (show s.head = none from hh)]
        exact ⟨rfl, hx rfl⟩
      | some t =>
        rw [hhead, link_next_some (hl.tail.trans hlast), if_neg]
        · exact Chain.snoc (hx rfl) hl.queued (List.Nodup.of_append_left hl.held.nodup) hxq hlast
        · rw [hh]
          cases q with
          | nil => simp at hlast
          | cons y q => simp
    · intro y hy _
      cases hlast : q.getLast? with
      | none => rw [link_next_none (hl.tail.trans hlast)]
      | some t =>
        rw [link_next_some (hl.tail.trans hlast)]
        refine Function.update_of_ne (fun he => hy ?_) ..
        rw [he]
        exact List.mem_of_getLast? hlast

end

/-- The thread `i` has copied its message, and its slot is queued. -/
theorem inv_link {b : List UInt8} {u : Bool} (h : Inv s q f a) (hi : s.calls i = .fill x b u b.length) :
    s.entry < s.maxMsgs.toNat ∧ ∃ q' a', Inv { (s.link x b u).goto i .idle with entry := s.entry + 1 } q' f a' := by
  obtain ⟨hfault, hl, hcop, ha⟩ := h
  have hslot : (s.calls i).slot = some x := by rw [hi]; rfl
  obtain ⟨hxq, hxf⟩ := hl.unqueued hslot
  have hbytes : Holds (s.pool x) b := by simpa using hcop.filled i x b u b.length hi
  have hroom : q.length < s.maxMsgs.toNat := by
    have hlt := hl.held.length_lt hslot
    rw [List.length_append] at hlt
    omega
  have hlen : a.queue.length < s.maxMsgs.toNat := hcop.queued.length_eq ▸ hroom
  obtain ⟨q', hperm, hq', hqueued, htail, hnext⟩ := chain_link (b := b) (u := u) hl hslot (fun hu => by
    subst hu
    exact hl.unlinked i x b _ hi)
  -- the other fields do not depend on the end of the queue
  obtain ⟨hmax, hfault', hpool, hcalls, hfree⟩ : (s.link x b u).maxMsgs = s.maxMsgs ∧
      (s.link x b u).fault = s.fault ∧ (s.link x b u).pool = s.pool ∧ (s.link x b u).calls = s.calls ∧
      (s.link x b u).free = s.free := by
    unfold MessageQueue.link
    split_ifs <;> exact ⟨rfl, rfl, rfl, rfl, rfl⟩
  have hgoto {j : ι} {c : Call} (hj : ((s.link x b u).goto i .idle).calls j = c) :
      j = i ∧ c = .idle ∨ j ≠ i ∧ s.calls j = c := by
    rcases goto_calls hj with ⟨hji, hc⟩ | ⟨hji, hc⟩
    · exact Or.inl ⟨hji, hc.symm⟩
    · exact Or.inr ⟨hji, hcalls ▸ hc⟩
  have hentry : s.entry + 1 = q'.length := by rw [hl.entry, hperm.length_eq, List.length_cons]
  refine ⟨hl.entry ▸ hroom, q',
    if u then { a with queue := b :: a.queue } else { a with queue := a.queue ++ [b] }, hfault'.trans hfault,
    ⟨hqueued, htail, ?_, hentry, ?_, ?_⟩, ⟨?_, ?_, ?_⟩, ?_⟩
  · show Chain (s.link x b u).next (s.link x b u).free f
    rw [hfree]
    refine hl.empty.congr fun y hy => hnext y (fun hyq => ?_) (fun he => hxf (he ▸ hy))
    exact (List.disjoint_of_nodup_append hl.held.nodup) hyq hy
  · have hs : Call.slot ∘ ((s.link x b u).goto i .idle).calls = Function.update (Call.slot ∘ s.calls) i none := by
      rw [slot_goto, hcalls]
      rfl
    show Held (s.link x b u).maxMsgs.toNat (Call.slot ∘ ((s.link x b u).goto i .idle).calls) (q' ++ f)
    rw [hs, hmax]
    exact hl.held.give hslot (hperm.append_right f)
  · intro j y b' k hj
    rcases hgoto hj with ⟨-, hc⟩ | ⟨hne, hc⟩
    · cases hc
    · have hyslot : (s.calls j).slot = some y := by rw [hc]; rfl
      exact (hnext y (hl.unqueued hyslot).1 (hl.other hne hslot hyslot)).trans (hl.unlinked j y b' k hc)
  · show List.Forall₂ (fun y m => Holds ((s.link x b u).pool y) m) q' _
    rw [hpool, hq']
    cases u with
    | true => exact .cons hbytes hcop.queued
    | false => exact List.rel_append hcop.queued (.cons hbytes .nil)
  · intro j y b' u' k hj
    rcases hgoto hj with ⟨-, hc⟩ | ⟨-, hc⟩
    · cases hc
    · exact hpool ▸ hcop.filled j y b' u' k hc
  · intro j y size out hj
    rcases hgoto hj with ⟨-, hc⟩ | ⟨-, hc⟩
    · cases hc
    · obtain ⟨ho, m, hm, hb⟩ := hcop.drained j y size out hc
      exact ⟨hpool ▸ ho, m, by cases u <;> exact hm, hpool ▸ hb⟩
  · cases u with
    | true => exact History.log ha (if_pos hlen)
    | false => exact History.log ha (if_pos hlen)

/-! ## Runs -/

/-- The count of the messages cannot overflow. -/
theorem entry_lt_max {b : List UInt8} {u : Bool} (h : Inv s q f a) (hi : s.calls i = .fill x b u b.length) :
    s.entry < RT_MQ_ENTRY_MAX :=
  Nat.lt_of_lt_of_le (inv_link h hi).1 (Nat.le_of_lt_succ s.maxMsgs.toNat_lt)

/-- **Every step keeps the invariant.** -/
theorem inv_move (h : Inv s q f a) (hm : Move s i s') : ∃ q' f' a', Inv s' q' f' a' := by
  cases hm with
  | call hi => exact ⟨q, f, a, (quiet_goto (by rw [hi]; rfl) rfl).inv h⟩
  | giveUp hi => exact ⟨q, f, a, (quiet_fail (by rw [hi]; rfl)).inv h⟩
  | sleepSender hi => exact ⟨q, f, a, ((quiet_goto (by rw [hi]; rfl) rfl).trans (quiet_lists _ _)).inv h⟩
  | sleepReceiver hi => exact ⟨q, f, a, ((quiet_goto (by rw [hi]; rfl) rfl).trans (quiet_lists _ _)).inv h⟩
  | reserve hi _ _ hx =>
    obtain ⟨f, rfl, -⟩ := Chain.pop (hx ▸ h.linked.empty)
    exact ⟨q, f, a, inv_reserve h (by rw [hi]; rfl)⟩
  | take hi hx =>
    obtain ⟨q, rfl, -⟩ := Chain.pop (hx ▸ h.linked.queued)
    obtain ⟨a', h'⟩ := inv_take h (by rw [hi]; rfl)
    exact ⟨q, f, a', h'⟩
  | noHead _ hentry hx =>
    have hq : q = [] := Chain.eq_nil (hx ▸ h.linked.queued)
    exact absurd (by rw [h.linked.entry, hq]; rfl) hentry
  | fill hi hc => exact ⟨q, f, a, inv_fill h hi hc⟩
  | drain hi => exact ⟨q, f, a, inv_drain h hi⟩
  | link hi =>
    obtain ⟨-, q', a', h'⟩ := inv_link h hi
    exact ⟨q', f, a', quiet_resumeReceiver.inv h'⟩
  | overflow hi hmax => exact absurd hmax (Nat.not_le_of_lt (entry_lt_max h hi))
  | release hi hlen =>
    obtain ⟨a', h'⟩ := inv_release h hi hlen
    exact ⟨q, _, a', quiet_resumeSender.inv h'⟩
  | expireSender hi => exact ⟨q, f, a, (quiet_goto_lists (by rw [hi]; rfl)).inv h⟩
  | expireReceiver hi => exact ⟨q, f, a, (quiet_goto_lists (by rw [hi]; rfl)).inv h⟩
  | lapse hi => exact ⟨q, f, a, (quiet_goto (by rw [hi]; rfl) rfl).inv h⟩

/-- The list that `rt_mq_create` builds. -/
theorem chain_freeList : ∀ n, Chain (MessageQueue.freeList n).1 (MessageQueue.freeList n).2 (List.range n).reverse
  | 0 => rfl
  | n + 1 => by
    rw [List.range_succ, List.reverse_concat]
    exact (chain_freeList n).push (by simp)

theorem inv_empty (msgSize maxMsgs : UInt16) (pool : ℕ → ℕ → UInt8) :
    Inv (MessageQueue.empty msgSize maxMsgs pool : MessageQueue ι) [] (List.range maxMsgs.toNat).reverse
      Fifo.empty := by
  have hheld : Held maxMsgs.toNat (fun _ : ι => none) ([] ++ (List.range maxMsgs.toNat).reverse) := by
    refine ⟨fun x => ?_, ?_, fun i x hx => ?_, fun i j x hx => ?_⟩
    · simp
    · simpa using List.nodup_range
    · cases hx
    · cases hx
  refine ⟨rfl, ⟨rfl, rfl, chain_freeList _, rfl, hheld, fun i x b k h => ?_⟩,
    ⟨.nil, fun i x b u k h => ?_, fun i x size out h => ?_⟩, rfl⟩
  all_goals cases h

/-! ## The pool -/

/-- The buffer of a call whose size has been checked. -/
def Call.checked : Call → Option (List UInt8)
  | .wait r => r.message.map Prod.fst
  | .enter r true => r.message.map Prod.fst
  | .fill _ b _ _ => some b
  | _ => none

/-- Only the bytes of the pool have been written. -/
structure Confined (msgSize maxMsgs : UInt16) (pool : ℕ → ℕ → UInt8) (s : MessageQueue ι) : Prop where
  sizes : s.msgSize = msgSize ∧ s.maxMsgs = maxMsgs
  fits : ∀ i b, (s.calls i).checked = some b → b.length ≤ msgSize.toNat
  outside : ∀ x k, maxMsgs.toNat ≤ x ∨ msgSize.toNat ≤ k → s.pool x k = pool x k

section
variable {msgSize maxMsgs : UInt16} {pool : ℕ → ℕ → UInt8}

/-- A thread goes on, with a buffer that fits if it has one. -/
theorem Confined.goto {c : Call} (h : Confined msgSize maxMsgs pool s)
    (hc : ∀ b, c.checked = some b → b.length ≤ msgSize.toNat) : Confined msgSize maxMsgs pool (s.goto i c) := by
  refine ⟨h.sizes, fun j b hb => ?_, h.outside⟩
  rcases goto_calls (rfl : (s.goto i c).calls j = _) with ⟨-, hj⟩ | ⟨-, hj⟩
  · exact hc b (hj ▸ hb)
  · exact h.fits j b (hj ▸ hb)

omit [DecidableEq ι] in
/-- Fields that do not matter here. -/
theorem Confined.same (h : Confined msgSize maxMsgs pool s) (hsizes : s'.msgSize = s.msgSize ∧ s'.maxMsgs = s.maxMsgs)
    (hcalls : s'.calls = s.calls) (hpool : s'.pool = s.pool) : Confined msgSize maxMsgs pool s' :=
  ⟨by rw [hsizes.1, hsizes.2]; exact h.sizes, hcalls ▸ h.fits, hpool ▸ h.outside⟩

theorem Confined.resumed (h : Confined msgSize maxMsgs pool s) (j : ι) :
    Confined msgSize maxMsgs pool (s.goto j (s.calls j).resumed) := by
  refine h.goto fun b hb => h.fits j b ?_
  rw [← hb]
  cases s.calls j <;> rfl

theorem Confined.resumeReceiver (h : Confined msgSize maxMsgs pool s) :
    Confined msgSize maxMsgs pool s.resumeReceiver := by
  unfold MessageQueue.resumeReceiver
  split
  · exact h
  · exact (h.resumed _).same ⟨rfl, rfl⟩ rfl rfl

theorem Confined.resumeSender (h : Confined msgSize maxMsgs pool s) :
    Confined msgSize maxMsgs pool s.resumeSender := by
  unfold MessageQueue.resumeSender
  split
  · exact h
  · exact (h.resumed _).same ⟨rfl, rfl⟩ rfl rfl

omit [DecidableEq ι] in
theorem Confined.link (h : Confined msgSize maxMsgs pool s) (x : ℕ) (b : List UInt8) (u : Bool) :
    Confined msgSize maxMsgs pool (s.link x b u) := by
  cases u with
  | true => exact h.same ⟨rfl, rfl⟩ rfl rfl
  | false => exact h.same ⟨rfl, rfl⟩ rfl rfl

omit [DecidableEq ι] in
/-- A byte is written to a slot in hand, at a place of its buffer. -/
theorem Confined.write {c : UInt8} {k : ℕ} (h : Confined msgSize maxMsgs pool s) (hx : x < maxMsgs.toNat)
    (hk : k < msgSize.toNat) :
    Confined msgSize maxMsgs pool { s with pool := Function.update s.pool x (Function.update (s.pool x) k c) } := by
  refine ⟨h.sizes, h.fits, fun y n hyn => ?_⟩
  show Function.update s.pool x (Function.update (s.pool x) k c) y n = pool y n
  by_cases hy : y = x
  · subst hy
    have hn : n ≠ k := by omega
    rw [Function.update_self, Function.update_of_ne hn]
    exact h.outside y n hyn
  · rw [Function.update_of_ne hy]
    exact h.outside y n hyn

theorem Confined.move (h : Confined msgSize maxMsgs pool s) (hl : Linked s q f) (hm : Move s i s') :
    Confined msgSize maxMsgs pool s' := by
  have hnone {c : Call} (hc : c.checked = none) (b : List UInt8) : c.checked = some b → b.length ≤ msgSize.toNat :=
    fun hb => absurd (hc.symm.trans hb) (by simp)
  have hidle : Confined msgSize maxMsgs pool (s.goto i .idle) := h.goto (hnone rfl)
  have hsize := h.sizes.1
  cases hm with
  | call hi => exact h.goto (hnone rfl)
  | giveUp hi => exact hidle.same ⟨rfl, rfl⟩ rfl rfl
  | sleepSender hi hb =>
    refine (h.goto (c := .wait _) fun b' hb' => ?_).same ⟨rfl, rfl⟩ rfl rfl
    cases hb'
    exact hsize ▸ hb
  | sleepReceiver hi => exact (h.goto (c := .wait _) (hnone rfl)).same ⟨rfl, rfl⟩ rfl rfl
  | reserve hi hr hb =>
    refine (h.goto (c := .fill ..) fun b' hb' => ?_).same ⟨rfl, rfl⟩ rfl rfl
    cases hb'
    exact hsize ▸ hb
  | take hi => exact (h.goto (c := .drain ..) (hnone rfl)).same ⟨rfl, rfl⟩ rfl rfl
  | noHead => exact h.same ⟨rfl, rfl⟩ rfl rfl
  | fill hi hc =>
    have hfits := h.fits i _ (by rw [hi]; rfl)
    have hx := (hl.held.mem _).2 (Or.inr ⟨i, by rw [Function.comp_apply, hi]; rfl⟩)
    rw [h.sizes.2] at hx
    have hk := (List.getElem?_eq_some_iff.1 hc).1
    refine ((h.write hx (Nat.lt_of_lt_of_le hk hfits)).goto (c := .fill ..) fun b' hb' => ?_).same ⟨rfl, rfl⟩ rfl rfl
    cases hb'
    exact hfits
  | drain => exact h.goto (hnone rfl)
  | link hi =>
    refine Confined.resumeReceiver ?_
    exact ((h.link _ _ _).goto (c := .idle) (hnone rfl)).same ⟨rfl, rfl⟩ rfl rfl
  | overflow hi => exact ((h.link _ _ _).goto (c := .idle) (hnone rfl)).same ⟨rfl, rfl⟩ rfl rfl
  | release hi =>
    refine Confined.resumeSender ?_
    exact hidle.same ⟨rfl, rfl⟩ rfl rfl
  | expireSender | expireReceiver => exact hidle.same ⟨rfl, rfl⟩ rfl rfl
  | lapse hi hr =>
    refine h.goto fun b hb => h.fits i b ?_
    rw [hi, ← hb]
    exact congrArg (Option.map Prod.fst) hr.symm

omit [DecidableEq ι] in
theorem confined_empty (msgSize maxMsgs : UInt16) (pool : ℕ → ℕ → UInt8) :
    Confined msgSize maxMsgs pool (MessageQueue.empty msgSize maxMsgs pool : MessageQueue ι) := by
  refine ⟨⟨rfl, rfl⟩, fun i b hb => ?_, fun _ _ _ => rfl⟩
  cases hb

end

/-- **Delivery.**  However the threads are interleaved, the events are a history of a queue of `max_msgs`
messages, no two calls share a slot, and no byte outside the pool is written. -/
theorem events_fifo (msgSize maxMsgs : UInt32) (pool : ℕ → ℕ → UInt8) {as : List (Act ι)} {s : MessageQueue ι}
    (h : run step as (MessageQueue.rtMqCreate msgSize maxMsgs pool) = some s) :
    s.msgSize = (rtAlign msgSize RT_ALIGN_SIZE).toUInt16 ∧ s.maxMsgs = maxMsgs.toUInt16 ∧
      (∃ a, run (Fifo.step s.msgSize.toNat s.maxMsgs.toNat) s.events Fifo.empty = some a ∧
        s.entry = a.queue.length) ∧
      s.fault = false ∧
      (∀ i j x, (s.calls i).slot = some x → (s.calls j).slot = some x → i = j) ∧
      ∀ x k, s.maxMsgs.toNat ≤ x ∨ s.msgSize.toNat ≤ k → s.pool x k = pool x k := by
  obtain ⟨⟨q, f, a, hinv⟩, hconf⟩ := run_inv
    (I := fun s => (∃ q f a, Inv s q f a) ∧
      Confined (rtAlign msgSize RT_ALIGN_SIZE).toUInt16 maxMsgs.toUInt16 pool s)
    (fun s act s' ⟨⟨q, f, a, hinv⟩, hconf⟩ hs => by
      obtain ⟨i, hm⟩ := step_move hs
      exact ⟨inv_move hinv hm, hconf.move hinv.linked hm⟩)
    ⟨⟨_, _, _, inv_empty _ _ pool⟩, confined_empty _ _ pool⟩ h
  obtain ⟨hsize, hmax⟩ := hconf.sizes
  refine ⟨hsize, hmax, ⟨a, hinv.history, ?_⟩, hinv.fault, hinv.linked.held.owner, ?_⟩
  · rw [hinv.linked.entry]
    exact hinv.copied.queued.length_eq
  · rw [hsize, hmax]
    exact hconf.outside

/-- A receiver sleeps, a message is sent, and the receiver gets it. -/
def handOver : List (Act Bool) :=
  [.call false (.recv 2 .forever), .enter false, .call true (.send [7, 8] .no), .enter true, .copy true, .copy true,
    .leave true, .enter false, .copy false, .copy false, .leave false]

theorem events_fifo_handOver : ∃ s, run step handOver (MessageQueue.rtMqCreate 2 1 fun _ _ => 0) = some s ∧
    s.fault = false ∧ ∃ a, run (Fifo.step s.msgSize.toNat s.maxMsgs.toNat) s.events Fifo.empty = some a := by
  have hsome : (run step handOver (MessageQueue.rtMqCreate 2 1 fun _ _ => 0)).isSome := by decide
  obtain ⟨s, hs⟩ := Option.isSome_iff_exists.1 hsome
  obtain ⟨-, -, ⟨a, ha, -⟩, hfault, -⟩ := events_fifo 2 1 _ hs
  exact ⟨s, hs, hfault, a, ha⟩

end DataRecorder.Kernel
