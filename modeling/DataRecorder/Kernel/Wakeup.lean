/-
  No wake-up of a message queue is lost.

  A receiver is suspended when the queue is empty, a sender when no slot is.  Each
  message put in the queue resumes one receiver and each slot given back one sender,
  but the resumed thread competes with all others.  Still no thread sleeps while what
  it waits for is there and nobody is on the way to it.

  * `Awake`: both lists of suspended threads, as lists of `Base.WaitList`;
  * `no_lost_wakeup`: over every run.
-/
import DataRecorder.Base.WaitList
import DataRecorder.Kernel.Delivery

namespace DataRecorder.Kernel

open Base

/-- What a call waits for: a slot if `sends`, else a message. -/
def Call.stage (sends : Bool) : Call → Stage
  | .wait r => if r.message.isSome = sends then .waits else .out
  | .enter r true => if r.message.isSome = sends then .woken else .out
  | _ => .out

theorem Call.stage_enter (sends : Bool) (r : Request) (w : Bool) : (Call.enter r w).stage sends ≠ .waits := by
  cases w with
  | true =>
    simp only [Call.stage]
    split_ifs <;> simp
  | false => simp [Call.stage]

/-- A call of the other kind. -/
theorem Call.stage_other {sends : Bool} {r : Request} (h : r.message.isSome = !sends) (w : Bool) :
    (Call.enter r w).stage sends = .out ∧ (Call.wait r).stage sends = .out := by
  have hne : r.message.isSome ≠ sends := by
    rw [h]
    exact Bool.not_ne_self sends
  refine ⟨?_, if_neg hne⟩
  cases w with
  | true => exact if_neg hne
  | false => rfl

theorem Call.stage_resumed {sends : Bool} {c : Call} (h : c.stage sends = .waits) :
    c.resumed.stage sends = .woken ∧ c.stage (!sends) = .out ∧ c.resumed.stage (!sends) = .out := by
  cases c with
  | wait r =>
    simp only [Call.stage, ite_eq_left_iff, reduceCtorEq, imp_false, not_not] at h
    subst h
    simp only [Call.stage, Call.resumed]
    cases r.message.isSome <;> simp
  | enter r w => exact absurd h (Call.stage_enter sends r w)
  | idle | fill | drain => cases h

variable {ι : Type*} [Fintype ι] [DecidableEq ι]

/-- The receivers wait for the queued messages, the senders for the slots `f`. -/
structure Awake (s : MessageQueue ι) (f : List ℕ) : Prop where
  receivers : WaitList s.suspendThread (Call.stage false ∘ s.calls) s.entry
  senders : WaitList s.suspendSenderThread (Call.stage true ∘ s.calls) f.length

variable {s s' : MessageQueue ι} {q f : List ℕ} {a : Fifo ι} {i : ι}

omit [Fintype ι] in
theorem stage_goto (sends : Bool) (c : Call) :
    Call.stage sends ∘ (s.goto i c).calls = Function.update (Call.stage sends ∘ s.calls) i (c.stage sends) :=
  Function.comp_update ..

section
variable {sends : Bool} {l : List ι} {n : ℕ} {c : Call}

/-- For the list the thread is where it was. -/
theorem pass_goto {d : Call} (h : WaitList l (Call.stage sends ∘ s.calls) n) (hi : s.calls i = d)
    (hc : c.stage sends = d.stage sends) : WaitList l (Call.stage sends ∘ (s.goto i c).calls) n := by
  have hsame : Function.update (Call.stage sends ∘ s.calls) i (c.stage sends) = Call.stage sends ∘ s.calls := by
    rw [hc, ← hi]
    exact Function.update_eq_self i _
  rwa [stage_goto, hsame]

/-- A thread that is not suspended takes one thing. -/
theorem use_goto (h : WaitList l (Call.stage sends ∘ s.calls) n) (hi : (s.calls i).stage sends ≠ .waits)
    (hc : c.stage sends = .out) : WaitList l (Call.stage sends ∘ (s.goto i c).calls) (n - 1) := by
  rw [stage_goto, hc]
  exact h.use hi

theorem sleep_goto (h : WaitList l (Call.stage sends ∘ s.calls) 0) (hi : (s.calls i).stage sends ≠ .waits)
    (hc : c.stage sends = .waits) : WaitList (l ++ [i]) (Call.stage sends ∘ (s.goto i c).calls) 0 := by
  rw [stage_goto, hc]
  exact h.sleep hi

theorem quit_goto (h : WaitList l (Call.stage sends ∘ s.calls) n) (hi : (s.calls i).stage sends = .waits)
    (hc : c.stage sends = .out) : WaitList (l.erase i) (Call.stage sends ∘ (s.goto i c).calls) n := by
  rw [stage_goto, hc]
  exact h.quit hi

/-- The first thread of one list is resumed, which leaves the other list as it is. -/
theorem wake_goto {j : ι} {m : ℕ} {l' : List ι} (h : WaitList (j :: l) (Call.stage sends ∘ s.calls) n)
    (h' : WaitList l' (Call.stage (!sends) ∘ s.calls) m) :
    WaitList l (Call.stage sends ∘ (s.goto j (s.calls j).resumed).calls) (n + 1) ∧
      WaitList l' (Call.stage (!sends) ∘ (s.goto j (s.calls j).resumed).calls) m := by
  obtain ⟨hwoken, hother, hother'⟩ := Call.stage_resumed ((h.mem j).1 List.mem_cons_self)
  refine ⟨?_, pass_goto h' rfl (hother'.trans hother.symm)⟩
  rw [stage_goto, hwoken]
  exact h.wake

end

theorem Awake.resumeReceiver {n : ℕ} (h : WaitList s.suspendThread (Call.stage false ∘ s.calls) n)
    (h' : WaitList s.suspendSenderThread (Call.stage true ∘ s.calls) f.length) (hn : s.entry = n + 1) :
    Awake s.resumeReceiver f := by
  unfold MessageQueue.resumeReceiver
  split
  next hl =>
    rw [hl] at h
    exact ⟨by rw [hn, hl]; exact h.wake_nil, h'⟩
  next j l hl =>
    rw [hl] at h
    obtain ⟨hr, hs⟩ := wake_goto h h'
    exact ⟨by rw [← hn] at hr; exact hr, hs⟩

theorem Awake.resumeSender {x : ℕ} (h : WaitList s.suspendThread (Call.stage false ∘ s.calls) s.entry)
    (h' : WaitList s.suspendSenderThread (Call.stage true ∘ s.calls) f.length) :
    Awake s.resumeSender (x :: f) := by
  unfold MessageQueue.resumeSender
  split
  next hl =>
    rw [hl] at h'
    exact ⟨h, by rw [hl]; exact h'.wake_nil⟩
  next j l hl =>
    rw [hl] at h'
    obtain ⟨hs, hr⟩ := wake_goto h' h
    exact ⟨hr, hs⟩

/-- **Every step keeps the lists of the suspended threads.** -/
theorem Awake.move {msgSize maxMsgs : UInt16} {pool : ℕ → ℕ → UInt8} (hw : Awake s f) (h : Inv s q f a)
    (hc : Confined msgSize maxMsgs pool s) (hm : Move s i s') : ∃ q' f' a', Inv s' q' f' a' ∧ Awake s' f' := by
  obtain ⟨hr, hs⟩ := hw
  have hempty (hx : s.free = none) : f = [] := Chain.eq_nil (hx ▸ h.linked.empty)
  have hawake {sends : Bool} {r : Request} {w : Bool} (hi : s.calls i = .enter r w) :
      (s.calls i).stage sends ≠ .waits := hi ▸ Call.stage_enter sends r w
  cases hm with
  | call hi => exact ⟨q, f, a, (quiet_goto (by rw [hi]; rfl) rfl).inv h, pass_goto hr hi rfl, pass_goto hs hi rfl⟩
  | @giveUp r w _ hi hentry hfree =>
    refine ⟨q, f, a, (quiet_fail (by rw [hi]; rfl)).inv h, ?_⟩
    cases hmsg : r.message with
    | none =>
      have hzero := hentry hmsg
      rw [hzero] at hr
      refine ⟨?_, pass_goto hs hi (Call.stage_other (by rw [hmsg]; rfl) w).1.symm⟩
      exact hzero ▸ use_goto hr (hawake hi) rfl
    | some m =>
      refine ⟨pass_goto hr hi (Call.stage_other (by rw [hmsg]; rfl) w).1.symm, ?_⟩
      cases w with
      | false => exact pass_goto hs hi rfl
      | true =>
        -- the size of its buffer has been checked before, so there was no slot
        have hfits := hc.fits i m.1 (by rw [hi, Call.checked, hmsg]; rfl)
        obtain rfl := hempty (hfree m.1 m.2 hmsg (hc.sizes.1 ▸ hfits))
        exact use_goto hs (hawake hi) rfl
  | sleepSender hi hb hx =>
    obtain rfl := hempty hx
    exact ⟨q, [], a, ((quiet_goto (by rw [hi]; rfl) rfl).trans (quiet_lists _ _)).inv h,
      pass_goto hr hi (Call.stage_other rfl _).1.symm, sleep_goto hs (hawake hi) rfl⟩
  | sleepReceiver hi hx =>
    refine ⟨q, f, a, ((quiet_goto (by rw [hi]; rfl) rfl).trans (quiet_lists _ _)).inv h, ?_,
      pass_goto hs hi (Call.stage_other rfl _).1.symm⟩
    rw [hx] at hr
    exact hx ▸ sleep_goto hr (hawake hi) rfl
  | reserve hi hmsg hb hx =>
    obtain ⟨f, rfl, -⟩ := Chain.pop (hx ▸ h.linked.empty)
    exact ⟨q, f, a, inv_reserve h (by rw [hi]; rfl),
      pass_goto hr hi (Call.stage_other (by rw [hmsg]; rfl) _).1.symm, use_goto hs (hawake hi) rfl⟩
  | take hi hx =>
    obtain ⟨q, rfl, -⟩ := Chain.pop (hx ▸ h.linked.queued)
    obtain ⟨a', h'⟩ := inv_take h (by rw [hi]; rfl)
    exact ⟨q, f, a', h', use_goto hr (hawake hi) rfl, pass_goto hs hi (Call.stage_other rfl _).1.symm⟩
  | noHead _ hentry hx =>
    have hq : q = [] := Chain.eq_nil (hx ▸ h.linked.queued)
    exact absurd (by rw [h.linked.entry, hq]; rfl) hentry
  | fill hi hc => exact ⟨q, f, a, inv_fill h hi hc, pass_goto hr hi rfl, pass_goto hs hi rfl⟩
  | drain hi => exact ⟨q, f, a, inv_drain h hi, pass_goto hr hi rfl, pass_goto hs hi rfl⟩
  | @link x b u hi =>
    obtain ⟨-, q', a', h'⟩ := inv_link h hi
    refine ⟨q', f, a', quiet_resumeReceiver.inv h', ?_⟩
    cases u with
    | true => exact .resumeReceiver (pass_goto hr hi rfl) (pass_goto hs hi rfl) rfl
    | false => exact .resumeReceiver (pass_goto hr hi rfl) (pass_goto hs hi rfl) rfl
  | overflow hi hmax => exact absurd hmax (Nat.not_le_of_lt (entry_lt_max h hi))
  | release hi hlen =>
    obtain ⟨a', h'⟩ := inv_release h hi hlen
    exact ⟨q, _, a', quiet_resumeSender.inv h', .resumeSender (pass_goto hr hi rfl) (pass_goto hs hi rfl)⟩
  | expireSender hi =>
    exact ⟨q, f, a, (quiet_goto_lists (by rw [hi]; rfl)).inv h,
      pass_goto hr hi (Call.stage_other rfl true).2.symm, quit_goto hs (by rw [hi]; rfl) rfl⟩
  | expireReceiver hi =>
    exact ⟨q, f, a, (quiet_goto_lists (by rw [hi]; rfl)).inv h, quit_goto hr (by rw [hi]; rfl) rfl,
      pass_goto hs hi (Call.stage_other rfl true).2.symm⟩
  | lapse hi hmsg =>
    refine ⟨q, f, a, (quiet_goto (by rw [hi]; rfl) rfl).inv h, pass_goto hr hi ?_, pass_goto hs hi ?_⟩
    all_goals simp only [Call.stage, hmsg]

omit [DecidableEq ι] in
theorem awake_empty (msgSize maxMsgs : UInt16) (pool : ℕ → ℕ → UInt8) (f : List ℕ) :
    Awake (MessageQueue.empty msgSize maxMsgs pool : MessageQueue ι) f := by
  have hwait (sends : Bool) (n : ℕ) : WaitList [] (Call.stage sends ∘ fun _ : ι => Call.idle) n := by
    refine ⟨List.nodup_nil, fun i => ?_, fun hl => absurd rfl hl⟩
    simp [Call.stage]
  exact ⟨hwait false 0, hwait true f.length⟩

omit [Fintype ι] [DecidableEq ι] in
/-- Between calls all slots are queued or empty. -/
theorem slots_at_rest (hl : Linked s q f) (hrest : ∀ i, (s.calls i).slot = none) :
    q.length + f.length = s.maxMsgs.toNat := by
  have hperm : (q ++ f).Perm (List.range s.maxMsgs.toNat) := by
    rw [List.perm_ext_iff_of_nodup hl.held.nodup List.nodup_range]
    intro x
    rw [List.mem_range, hl.held.mem]
    simp [hrest]
  simpa using hperm.length_eq

/-- **No wake-up is lost.**  While a receiver sleeps, as many woken ones are on their way as messages are
queued; while a sender sleeps, as many as slots are empty; and when all calls in progress sleep, they do not
wait for each other. -/
theorem no_lost_wakeup (msgSize maxMsgs : UInt32) (pool : ℕ → ℕ → UInt8) {as : List (Act ι)} {s : MessageQueue ι}
    (h : run step as (MessageQueue.rtMqCreate msgSize maxMsgs pool) = some s) :
    (s.suspendThread ≠ [] → s.entry ≤ woken (Call.stage false ∘ s.calls)) ∧
      (s.suspendSenderThread ≠ [] → ∃ f, Chain s.next s.free f ∧ f.length ≤ woken (Call.stage true ∘ s.calls)) ∧
      (s.maxMsgs ≠ 0 → (∀ i, s.calls i = .idle ∨ ∃ r, s.calls i = .wait r) →
        s.suspendThread = [] ∨ s.suspendSenderThread = []) := by
  obtain ⟨⟨q, f, a, hinv, hawake⟩, -⟩ := run_inv
    (I := fun s => (∃ q f a, Inv s q f a ∧ Awake s f) ∧
      Confined (rtAlign msgSize RT_ALIGN_SIZE).toUInt16 maxMsgs.toUInt16 pool s)
    (fun s act s' ⟨⟨q, f, a, hinv, hawake⟩, hconf⟩ hs => by
      obtain ⟨i, hm⟩ := step_move hs
      exact ⟨hawake.move hinv hconf hm, hconf.move hinv.linked hm⟩)
    ⟨⟨_, _, _, inv_empty _ _ pool, awake_empty _ _ pool _⟩, confined_empty _ _ pool⟩ h
  refine ⟨hawake.receivers.enough, fun hl => ⟨f, hinv.linked.empty, hawake.senders.enough hl⟩, fun hmax hrest => ?_⟩
  by_contra hboth
  rw [not_or] at hboth
  have hnone (sends : Bool) : woken (Call.stage sends ∘ s.calls) = 0 := by
    rw [woken, Finset.card_eq_zero, Finset.filter_eq_empty_iff]
    intro i _
    rcases hrest i with hi | ⟨r, hi⟩
    · simp [hi, Call.stage]
    · simp [hi, Call.stage, ite_eq_iff]
  have hslots := slots_at_rest hinv.linked fun i => by
    rcases hrest i with hi | ⟨r, hi⟩ <;> rw [hi] <;> rfl
  have hq := hawake.receivers.enough hboth.1
  have hf := hawake.senders.enough hboth.2
  rw [hnone, hinv.linked.entry] at hq
  rw [hnone] at hf
  have hzero : s.maxMsgs.toNat ≠ 0 := fun he => hmax (UInt16.toNat_inj.1 he)
  omega

/-- Two receivers sleep when a message is queued: one of them is on its way. -/
def oneOfTwo : List (Act (Fin 3)) :=
  [.call 0 (.recv 1 .forever), .enter 0, .call 1 (.recv 1 .forever), .enter 1, .call 2 (.send [7] .no), .enter 2,
    .copy 2, .leave 2]

theorem no_lost_wakeup_oneOfTwo : ∃ s, run step oneOfTwo (MessageQueue.rtMqCreate 1 4 fun _ _ => 0) = some s ∧
    s.suspendThread = [1] ∧ s.entry = 1 ∧ 1 ≤ woken (Call.stage false ∘ s.calls) := by
  have hsome : ∃ s ∈ run step oneOfTwo (MessageQueue.rtMqCreate 1 4 fun _ _ => 0),
      s.suspendThread = [1] ∧ s.entry = 1 := by decide
  obtain ⟨s, hs, hl, hentry⟩ := hsome
  refine ⟨s, hs, hl, hentry, ?_⟩
  rw [← hentry]
  exact (no_lost_wakeup 1 4 _ hs).1 (by simp [hl])

end DataRecorder.Kernel
