/-
  Samples that are left behind in `sensor_mq`.

  The queue counts messages, but the event is one flag: two sends that the saver
  does not receive in between set it only once.  In a run in which every
  `rt_event_send` finds the flag clear (`Paced`), the queue holds as many messages
  as there are wake-ups under way, and a blocked saver leaves an empty queue
  (`noStranded_of_paced`).
-/
import DataRecorder.Logger.Threads

namespace DataRecorder

open Base Threads

/-- **No stranded sample**: while the saver is blocked with the flag clear and the
    producer is between iterations, the queue is empty and every message sent was
    formatted once, in order.  No message was refused. -/
structure NoStranded (s : Threads) : Prop where
  drained : s.saver = .eventWait → s.flag = false → s.producer = .idle →
    s.mq = [] ∧ s.puts.map Put.message = s.sent
  accepted : s.dropped = []

def Paced (s : Threads) (a : Action) : Prop := a = .eventSend → s.flag = false

instance (s : Threads) : ∀ a, Decidable (Paced s a)
  | .eventSend => decidable_of_iff (s.flag = false) ⟨fun h _ => h, fun h => h rfl⟩
  | .produce _ _ | .mqSend | .eventRecv | .mqRecv | .format | .test | .folder | .file | .flush _ | .wake => isTrue nofun

/-! ## Wake-ups and messages -/

/-- The saver is on the way to `rt_mq_recv`. -/
def Phase.pending : Phase → ℕ
  | .queue | .queueWait => 1
  | _ => 0

/-- The producer is on the way to `rt_event_send`. -/
def Producer.pending : Producer → ℕ
  | .notify => 1
  | _ => 0

/-- The message that was received but not yet formatted. -/
def Phase.inHand : Phase → List Message
  | .format m => [m]
  | _ => []

/-- There is one wake-up under way for each message in the queue. -/
structure Matched (s : Threads) : Prop where
  count : s.mq.length = s.flag.toNat + s.saver.pending + s.producer.pending
  order : s.sent = s.puts.map Put.message ++ s.saver.inHand ++ s.mq
  waiting : s.saver = .eventWait → s.flag = false
  awake : s.saver ≠ .queueWait
  accepted : s.dropped = []

theorem matched_start (rtc : Rtc) (store : Saver) : Matched (start rtc store) where
  count := rfl
  order := rfl
  waiting _ := rfl
  awake := nofun
  accepted := rfl

theorem pending_le (p : Phase) : p.pending ≤ 1 := by
  cases p <;> simp [Phase.pending]

variable {s s' : Threads}

theorem Matched.room (h : Matched s) : s.mq.length ≤ 3 := by
  have h₁ := h.count
  have h₂ := pending_le s.saver
  have h₃ := s.flag.toNat_le
  have h₄ : s.producer.pending ≤ 1 := by cases s.producer <;> simp [Producer.pending]
  omega

theorem Matched.keep (h : Matched s) {p : Phase} {store : Saver} {flushes : List Flush}
    (hs : s.saver.pending = 0 ∧ s.saver.inHand = []) (hp : p.pending = 0 ∧ p.inHand = [])
    (hw : p ≠ .eventWait) (hq : p ≠ .queueWait) :
    Matched { s with saver := p, store := store, flushes := flushes } where
  count := by rw [h.count, hs.1, hp.1]
  order := by rw [h.order, hs.2, hp.2]
  waiting he := absurd he hw
  awake := hq
  accepted := h.accepted

theorem Matched.step (h : Matched s) {a : Action} (hg : Paced s a) (he : Effect s a s') : Matched s' := by
  obtain ⟨hcount, horder, hwait, hawake, hdrop⟩ := id h
  cases he with
  | produce hp =>
    rw [hp] at hcount
    exact ⟨hcount, horder, hwait, hawake, hdrop⟩
  | mqSend hp =>
    have hroom : s.mq.length < mqSize := Nat.lt_of_le_of_lt h.room (by decide)
    rw [rtMqSend, if_pos hroom, Phase.resumed_eq hawake]
    rw [hp] at hcount
    refine ⟨?_, ?_, hwait, hawake, hdrop⟩
    · rw [List.length_append, hcount]; rfl
    · show s.sent ++ _ = _
      rw [horder, ← List.append_assoc]
  | eventSend hp =>
    have hflag := hg rfl
    rw [hp, hflag] at hcount
    cases hs : s.saver with
    | eventWait =>
      -- the flag is handed to the suspended saver
      rw [hs] at hcount horder
      simp only [rtEventSend, hs]
      exact ⟨hcount, horder, (by simp), (by simp), hdrop⟩
    | queueWait => exact absurd hs hawake
    | _ =>
      rw [hs] at hcount horder
      simp only [rtEventSend, hs]
      exact ⟨hcount.trans (by simp [Phase.pending, Producer.pending]), horder, (by simp), (by simp), hdrop⟩
  | eventRecv hs =>
    rw [hs] at hcount horder
    rw [rtEventRecv]
    by_cases hf : s.flag
    · rw [hf] at hcount
      rw [if_pos hf]
      exact ⟨hcount.trans (by simp [Phase.pending]), horder, (by simp), (by simp), hdrop⟩
    · rw [if_neg hf]
      exact ⟨hcount, horder, fun _ => Bool.eq_false_of_not_eq_true hf, (by simp), hdrop⟩
  | mqRecv hs =>
    rw [hs] at hcount horder
    rw [rtMqRecv]
    cases hq : s.mq with
    | nil =>
      -- a wake-up always finds a message
      rw [hq] at hcount
      simp only [List.length_nil, Phase.pending] at hcount
      omega
    | cons m mq =>
      rw [hq] at hcount horder
      refine ⟨?_, ?_, (by simp), (by simp), hdrop⟩
      · simp only [List.length_cons, Phase.pending] at hcount ⊢; omega
      · simpa [Phase.inHand] using horder
  | format hs =>
    rw [hs] at hcount horder
    refine ⟨hcount, ?_, (by simp [Threads.format]), (by simp [Threads.format]), hdrop⟩
    simpa [Threads.format, Phase.inHand] using horder
  | test hs =>
    by_cases h59 : s.rtc.time.seconds = 59
    · rw [if_pos h59]; exact h.keep (by rw [hs]; exact ⟨rfl, rfl⟩) ⟨rfl, rfl⟩ (by simp) (by simp)
    · rw [if_neg h59]; exact h.keep (by rw [hs]; exact ⟨rfl, rfl⟩) ⟨rfl, rfl⟩ (by simp) (by simp)
  | folder hs | file hs | flush hs | wake hs =>
    exact h.keep (by rw [hs]; exact ⟨rfl, rfl⟩) ⟨rfl, rfl⟩ (by simp) (by simp)

theorem Matched.noStranded (h : Matched s) : NoStranded s where
  drained hs hf hp := by
    have hcount := h.count
    rw [hs, hf, hp] at hcount
    have hmq : s.mq = [] := List.eq_nil_of_length_eq_zero hcount
    have horder := h.order
    rw [hs, hmq] at horder
    exact ⟨hmq, by simpa [Phase.inHand] using horder.symm⟩
  accepted := h.accepted

section
variable {rtc : Rtc} {store : Saver} {as : List Action}

/-- **Every paced run** leaves no sample behind. -/
theorem noStranded_of_paced (hg : Guarded step Paced (start rtc store) as)
    (h : run step as (start rtc store) = some s) : NoStranded s :=
  (hg.run_inv (fun _ _ _ hs hp hstep => Matched.step hs hp (step_effect hstep))
    (matched_start rtc store) h).noStranded

end

/-! ## Two runs -/

section
variable (rtc : Rtc) (store : Saver)

/-- Three samples, two of which arrive while the saver formats the first. -/
def threeSamples (d : SensorData) : List Action :=
  [.produce d rtc, .mqSend, .eventSend, .eventRecv, .mqRecv, .produce d rtc, .mqSend, .eventSend,
    .produce d rtc, .mqSend, .eventSend, .format, .test, .eventRecv, .mqRecv, .format, .test, .eventRecv]

end

def noonClock : Rtc := ⟨⟨12, 30, 10⟩, ⟨2021, 4, 24⟩⟩

def emptyStore : Saver := ⟨rtRingbufferCreate fun _ => 0, fun _ => none⟩

def lastSecond : Rtc := ⟨⟨12, 30, 59⟩, ⟨2021, 4, 24⟩⟩

def nextMinute : Rtc := ⟨⟨12, 31, 0⟩, ⟨2021, 4, 24⟩⟩

/-- The clock is read again while the saver has still to format the first sample; the first line is flushed; the third
    sample comes in the next minute, before the saver tests the second for second 59. -/
def acrossMinute (io : Io) : List Action :=
  [.produce ⟨25, 60⟩ lastSecond, .mqSend, .eventSend, .eventRecv, .mqRecv,
    .produce ⟨26, 61⟩ lastSecond, .mqSend, .format, .test, .folder, .eventSend, .file, .flush io, .wake,
    .eventRecv, .mqRecv, .format, .produce ⟨27, 62⟩ nextMinute, .mqSend, .test, .eventSend,
    .eventRecv, .mqRecv, .format, .test, .eventRecv]

theorem acrossMinute_noStranded : ∃ s, run step (acrossMinute ⟨3, fun _ => 2034⟩)
    (start noonClock emptyStore) = some s ∧
    s.saver = .eventWait ∧ s.producer = .idle ∧ s.sent.length = 3 ∧ s.flushes.length = 1 ∧ NoStranded s := by
  have hg : Guarded step Paced (start noonClock emptyStore) (acrossMinute ⟨3, fun _ => 2034⟩) := by decide
  exact ⟨_, rfl, rfl, rfl, rfl, rfl, noStranded_of_paced hg rfl⟩

/-- The third sample stays in the queue of a blocked saver. -/
theorem stranded : ¬ ∀ (rtc : Rtc) (store : Saver) (as : List Action) (s : Threads),
    run step as (start rtc store) = some s → NoStranded s := by
  intro h
  obtain ⟨s, hs, hsaver, hflag, hprod, hmq⟩ : ∃ s,
      run step (threeSamples noonClock ⟨25, 60⟩) (start noonClock emptyStore) = some s ∧
        s.saver = .eventWait ∧ s.flag = false ∧ s.producer = .idle ∧ s.mq.length = 1 :=
    ⟨_, rfl, rfl, rfl, rfl, rfl⟩
  rw [((h _ _ _ _ hs).drained hsaver hflag hprod).1] at hmq
  cases hmq

end DataRecorder
