/-
  Message queues of the kernel (`rt_mq_*`, `ipc.c`) and the threads that use them.

  The slots of a queue are linked: the queued ones from `msg_queue_head`, the empty
  ones from `msg_queue_free`.  A call takes its slot off a list in one critical
  section, copies the message byte by byte outside any critical section, and puts
  the slot on the other list in a second one.  A step is one critical section or
  one byte, so the runs are the interleavings of any number of threads.

  The queue has the flag `RT_IPC_FLAG_FIFO`, as `sensor_mq` has: `rt_ipc_list_suspend`
  puts a thread behind those that wait.  Its branch for `RT_IPC_FLAG_PRIO` is left out, as
  are `rt_mq_control`, `rt_mq_detach` and `rt_mq_delete`.  `msg->next = RT_NULL` of
  `rt_mq_send_wait` stands behind the first critical section; here it is part of it, for
  the slot is on neither list then and no other thread looks at it.

  `Fifo` is the queue that the callers see.
-/
import Mathlib.Data.Fintype.Card
import DataRecorder.Base.Chain
import DataRecorder.Base.System
import DataRecorder.Kernel.Rtdef

namespace DataRecorder.Kernel

open Base

/-- How long a call waits: not at all, for some ticks, or forever. -/
inductive Timeout where
  | no
  | ticks
  | forever
  deriving DecidableEq

/-- A call of `rt_mq_send_wait` or `rt_mq_urgent`, or of `rt_mq_recv`. -/
inductive Request where
  | send (buffer : List UInt8) (timeout : Timeout)
  | urgent (buffer : List UInt8)
  | recv (size : ℕ) (timeout : Timeout)

/-- Where a thread is in its call. -/
inductive Call where
  | idle
  /-- before the first critical section; `woken` if the thread was suspended in it before -/
  | enter (r : Request) (woken : Bool)
  /-- suspended -/
  | wait (r : Request)
  /-- `k` bytes of the buffer are in the slot -/
  | fill (slot : ℕ) (buffer : List UInt8) (urgent : Bool) (k : ℕ)
  /-- the bytes `out` of the slot are in the buffer -/
  | drain (slot : ℕ) (size : ℕ) (out : List UInt8)

/-- A suspended call tries again. -/
def Call.resumed : Call → Call
  | .wait r => .enter r true
  | c => c

/-- What the callers see: a message put in the queue, one taken, and what was given for it; an error. -/
inductive Event (ι : Type*) where
  | put (buffer : List UInt8)
  | urgent (buffer : List UInt8)
  | take (i : ι) (size : ℕ)
  | give (i : ι) (out : List UInt8)
  | error (i : ι) (e : ℤ)

/-- `struct rt_messagequeue` with its pool of `max_msgs` slots, the threads and the events so far. -/
structure MessageQueue (ι : Type*) where
  msgSize : UInt16
  maxMsgs : UInt16
  next : ℕ → Option ℕ
  pool : ℕ → ℕ → UInt8
  head : Option ℕ
  tail : Option ℕ
  free : Option ℕ
  entry : ℕ
  suspendThread : List ι
  suspendSenderThread : List ι
  calls : ι → Call
  events : List (Event ι)
  /-- a null pointer was followed -/
  fault : Bool

abbrev RT_MQ_ENTRY_MAX : ℕ := 65535

variable {ι : Type*} [DecidableEq ι]

namespace MessageQueue

/-- The loop of `rt_mq_create` over the slots. -/
def freeList : ℕ → (ℕ → Option ℕ) × Option ℕ
  | 0 => (fun _ => none, none)
  | n + 1 => (Function.update (freeList n).1 n (freeList n).2, some n)

def empty (msgSize maxMsgs : UInt16) (pool : ℕ → ℕ → UInt8) : MessageQueue ι where
  msgSize := msgSize
  maxMsgs := maxMsgs
  next := (freeList maxMsgs.toNat).1
  pool := pool
  head := none
  tail := none
  free := (freeList maxMsgs.toNat).2
  entry := 0
  suspendThread := []
  suspendSenderThread := []
  calls := fun _ => .idle
  events := []
  fault := false

/-- `rt_mq_create`, where the pool could be allocated and held the bytes `pool` before. -/
def rtMqCreate (msgSize maxMsgs : UInt32) (pool : ℕ → ℕ → UInt8) : MessageQueue ι :=
  empty (rtAlign msgSize RT_ALIGN_SIZE).toUInt16 maxMsgs.toUInt16 pool

variable (s : MessageQueue ι)

/-- The thread `i` goes on to `c`. -/
def goto (i : ι) (c : Call) : MessageQueue ι := { s with calls := Function.update s.calls i c }

def log (e : Event ι) : MessageQueue ι := { s with events := s.events ++ [e] }

/-- The call ends with the error `-e`. -/
def fail (i : ι) (e : ℤ) : MessageQueue ι := (s.goto i .idle).log (.error i (-e))

/-- `rt_ipc_list_resume` on the suspended receivers: the first one tries again. -/
def resumeReceiver : MessageQueue ι :=
  match s.suspendThread with
  | [] => s
  | j :: rest => { s.goto j (s.calls j).resumed with suspendThread := rest }

def resumeSender : MessageQueue ι :=
  match s.suspendSenderThread with
  | [] => s
  | j :: rest => { s.goto j (s.calls j).resumed with suspendSenderThread := rest }

/-- A slot is taken off the list of the empty ones. -/
def reserve (i : ι) (buffer : List UInt8) (urgent : Bool) (x : ℕ) : MessageQueue ι :=
  { s.goto i (.fill x buffer urgent 0) with
    free := s.next x
    next := if urgent then s.next else Function.update s.next x none }

/-- `rt_mq_send_wait` up to the end of its first critical section. -/
def sendEnter (i : ι) (buffer : List UInt8) (timeout : Timeout) : MessageQueue ι :=
  if buffer.length > s.msgSize.toNat then s.fail i RT_ERROR
  else match s.free with
    | some x => s.reserve i buffer false x
    | none =>
      if timeout = .no then s.fail i RT_EFULL
      else { s.goto i (.wait (.send buffer timeout)) with suspendSenderThread := s.suspendSenderThread ++ [i] }

/-- `rt_mq_urgent` up to the end of its first critical section. -/
def urgentEnter (i : ι) (buffer : List UInt8) : MessageQueue ι :=
  if buffer.length > s.msgSize.toNat then s.fail i RT_ERROR
  else match s.free with
    | some x => s.reserve i buffer true x
    | none => s.fail i RT_EFULL

/-- `rt_mq_recv` up to the end of its first critical section. -/
def recvEnter (i : ι) (size : ℕ) (timeout : Timeout) : MessageQueue ι :=
  if s.entry = 0 then
    if timeout = .no then s.fail i RT_ETIMEOUT
    else { s.goto i (.wait (.recv size timeout)) with suspendThread := s.suspendThread ++ [i] }
  else match s.head with
    | none => { s with fault := true }
    | some x => { (s.goto i (.drain x size [])).log (.take i size) with
        head := s.next x
        tail := if s.tail = some x then none else s.tail
        entry := s.entry - 1 }

def enter (i : ι) : Request → MessageQueue ι
  | .send buffer timeout => s.sendEnter i buffer timeout
  | .urgent buffer => s.urgentEnter i buffer
  | .recv size timeout => s.recvEnter i size timeout

/-- The slot `x` becomes the last one of the queue, or the first one if `urgent`. -/
def link (x : ℕ) (buffer : List UInt8) (urgent : Bool) : MessageQueue ι :=
  if urgent then { s.log (.urgent buffer) with
    next := Function.update s.next x s.head
    head := some x
    tail := if s.tail = none then some x else s.tail }
  else { s.log (.put buffer) with
    next := match s.tail with
      | some y => Function.update s.next y (some x)
      | none => s.next
    tail := some x
    head := if s.head = none then some x else s.head }

/-- The second critical section of `rt_mq_send_wait` and `rt_mq_urgent`. -/
def sendLeave (i : ι) (x : ℕ) (buffer : List UInt8) (urgent : Bool) : MessageQueue ι :=
  let s := s.link x buffer urgent
  if s.entry < RT_MQ_ENTRY_MAX then ({ s.goto i .idle with entry := s.entry + 1 }).resumeReceiver
  else s.fail i RT_EFULL

/-- The second critical section of `rt_mq_recv`. -/
def recvLeave (i : ι) (x : ℕ) (out : List UInt8) : MessageQueue ι :=
  ({ (s.goto i .idle).log (.give i out) with
    next := Function.update s.next x s.free
    free := some x }).resumeSender

end MessageQueue

/-! ## Steps -/

inductive Act (ι : Type*) where
  /-- the thread calls the kernel -/
  | call (i : ι) (r : Request)
  /-- the first critical section, also of a thread that was resumed -/
  | enter (i : ι)
  /-- a byte of `rt_memcpy` -/
  | copy (i : ι)
  /-- the second critical section -/
  | leave (i : ι)
  /-- the timer of a suspended thread ends its call -/
  | expire (i : ι)
  /-- no time is left to a thread that was resumed -/
  | lapse (i : ι)

open MessageQueue in
def step : Act ι → MessageQueue ι → Option (MessageQueue ι)
  | .call i r, s => match s.calls i with
    | .idle => some (s.goto i (.enter r false))
    | _ => none
  | .enter i, s => match s.calls i with
    | .enter r _ => some (s.enter i r)
    | _ => none
  | .copy i, s => match s.calls i with
    | .fill x buffer urgent k => buffer[k]?.map fun b =>
      { s.goto i (.fill x buffer urgent (k + 1)) with
        pool := Function.update s.pool x (Function.update (s.pool x) k b) }
    | .drain x size out =>
      if out.length < min size s.msgSize.toNat then some (s.goto i (.drain x size (out ++ [s.pool x out.length])))
      else none
    | _ => none
  | .leave i, s => match s.calls i with
    | .fill x buffer urgent k => if k = buffer.length then some (s.sendLeave i x buffer urgent) else none
    | .drain x size out => if out.length = min size s.msgSize.toNat then some (s.recvLeave i x out) else none
    | _ => none
  | .expire i, s => match s.calls i with
    | .wait (.send _ .ticks) =>
      some ({ s with suspendSenderThread := s.suspendSenderThread.erase i }.fail i RT_ETIMEOUT)
    | .wait (.recv _ .ticks) => some ({ s with suspendThread := s.suspendThread.erase i }.fail i RT_ETIMEOUT)
    | _ => none
  | .lapse i, s => match s.calls i with
    | .enter (.send buffer .ticks) true => some (s.goto i (.enter (.send buffer .no) true))
    | .enter (.recv size .ticks) true => some (s.goto i (.enter (.recv size .no) true))
    | _ => none

/-! ## What a step can do -/

/-- The buffer of a call that sends, and whether it goes to the front. -/
def Request.message : Request → Option (List UInt8 × Bool)
  | .send buffer _ => some (buffer, false)
  | .urgent buffer => some (buffer, true)
  | .recv _ _ => none

/-- A change of the state by the thread `i`. -/
inductive Move (s : MessageQueue ι) (i : ι) : MessageQueue ι → Prop
  | call {r} : s.calls i = .idle → Move s i (s.goto i (.enter r false))
  | giveUp {r w e} : s.calls i = .enter r w → (r.message = none → s.entry = 0) →
      (∀ b u, r.message = some (b, u) → b.length ≤ s.msgSize.toNat → s.free = none) → Move s i (s.fail i e)
  | sleepSender {b t w} : s.calls i = .enter (.send b t) w → b.length ≤ s.msgSize.toNat → s.free = none →
      Move s i { s.goto i (.wait (.send b t)) with suspendSenderThread := s.suspendSenderThread ++ [i] }
  | sleepReceiver {size t w} : s.calls i = .enter (.recv size t) w → s.entry = 0 →
      Move s i { s.goto i (.wait (.recv size t)) with suspendThread := s.suspendThread ++ [i] }
  | reserve {r w b u x} : s.calls i = .enter r w → r.message = some (b, u) → b.length ≤ s.msgSize.toNat →
      s.free = some x → Move s i (s.reserve i b u x)
  | take {size t w x} : s.calls i = .enter (.recv size t) w → s.head = some x →
      Move s i { (s.goto i (.drain x size [])).log (.take i size) with
        head := s.next x
        tail := if s.tail = some x then none else s.tail
        entry := s.entry - 1 }
  | noHead {size t w} : s.calls i = .enter (.recv size t) w → s.entry ≠ 0 → s.head = none →
      Move s i { s with fault := true }
  | fill {x b u k c} : s.calls i = .fill x b u k → b[k]? = some c →
      Move s i { s.goto i (.fill x b u (k + 1)) with
        pool := Function.update s.pool x (Function.update (s.pool x) k c) }
  | drain {x size out} : s.calls i = .drain x size out → out.length < min size s.msgSize.toNat →
      Move s i (s.goto i (.drain x size (out ++ [s.pool x out.length])))
  | link {x b u} : s.calls i = .fill x b u b.length → s.entry < RT_MQ_ENTRY_MAX →
      Move s i ({ (s.link x b u).goto i .idle with entry := s.entry + 1 }.resumeReceiver)
  | overflow {x b u} : s.calls i = .fill x b u b.length → RT_MQ_ENTRY_MAX ≤ s.entry →
      Move s i ((s.link x b u).fail i RT_EFULL)
  | release {x size out} : s.calls i = .drain x size out → out.length = min size s.msgSize.toNat →
      Move s i ({ (s.goto i .idle).log (.give i out) with
        next := Function.update s.next x s.free
        free := some x }.resumeSender)
  | expireSender {b} : s.calls i = .wait (.send b .ticks) →
      Move s i ({ s with suspendSenderThread := s.suspendSenderThread.erase i }.fail i RT_ETIMEOUT)
  | expireReceiver {size} : s.calls i = .wait (.recv size .ticks) →
      Move s i ({ s with suspendThread := s.suspendThread.erase i }.fail i RT_ETIMEOUT)
  | lapse {r r'} : s.calls i = .enter r true → r'.message = r.message → Move s i (s.goto i (.enter r' true))

variable {s s' : MessageQueue ι}

omit [DecidableEq ι] in
theorem link_entry {x : ℕ} {b : List UInt8} {u : Bool} : (s.link x b u).entry = s.entry := by
  unfold MessageQueue.link
  split_ifs <;> rfl

theorem enter_move {i : ι} {r : Request} {w : Bool} (hi : s.calls i = .enter r w) : Move s i (s.enter i r) := by
  cases r with
  | send b t =>
    simp only [MessageQueue.enter, MessageQueue.sendEnter]
    by_cases hsize : b.length > s.msgSize.toNat
    · rw [if_pos hsize]
      refine .giveUp hi (fun h => by cases h) fun b' u hb hle => ?_
      cases hb
      omega
    · rw [if_neg hsize]
      cases hx : s.free with
      | some x => exact .reserve hi rfl (by omega) hx
      | none =>
        by_cases ht : t = .no
        · simp only [if_pos ht]
          exact .giveUp hi (fun h => by cases h) fun _ _ _ _ => hx
        · simp only [if_neg ht]
          exact .sleepSender hi (by omega) hx
  | urgent b =>
    simp only [MessageQueue.enter, MessageQueue.urgentEnter]
    by_cases hsize : b.length > s.msgSize.toNat
    · rw [if_pos hsize]
      refine .giveUp hi (fun h => by cases h) fun b' u hb hle => ?_
      cases hb
      omega
    · rw [if_neg hsize]
      cases hx : s.free with
      | some x => exact .reserve hi rfl (by omega) hx
      | none => exact .giveUp hi (fun h => by cases h) fun _ _ _ _ => hx
  | recv size t =>
    simp only [MessageQueue.enter, MessageQueue.recvEnter]
    by_cases hentry : s.entry = 0
    · rw [if_pos hentry]
      by_cases ht : t = .no
      · simp only [if_pos ht]
        exact .giveUp hi (fun _ => hentry) fun _ _ h => by cases h
      · simp only [if_neg ht]
        exact .sleepReceiver hi hentry
    · rw [if_neg hentry]
      split
      next hx => exact .noHead hi hentry hx
      next x hx => exact .take hi hx

theorem step_move {act : Act ι} (hs : step act s = some s') : ∃ i, Move s i s' := by
  cases act with
  | call i r =>
    simp only [step] at hs
    split at hs <;> cases hs
    next hi => exact ⟨i, .call hi⟩
  | enter i =>
    simp only [step] at hs
    split at hs <;> cases hs
    next hi => exact ⟨i, enter_move hi⟩
  | copy i =>
    simp only [step] at hs
    split at hs
    next hi =>
      obtain ⟨c, hc, rfl⟩ := Option.map_eq_some_iff.1 hs
      exact ⟨i, .fill hi hc⟩
    next hi =>
      split_ifs at hs with hlen
      cases hs
      exact ⟨i, .drain hi hlen⟩
    next => cases hs
  | leave i =>
    simp only [step] at hs
    split at hs
    next x b u k hi =>
      split_ifs at hs with hk
      cases hs
      subst hk
      refine ⟨i, ?_⟩
      unfold MessageQueue.sendLeave
      simp only [link_entry]
      split_ifs with hmax
      · exact .link hi hmax
      · exact .overflow hi (Nat.le_of_not_lt hmax)
    next hi =>
      split_ifs at hs with hlen
      cases hs
      exact ⟨i, .release hi hlen⟩
    next => cases hs
  | expire i =>
    simp only [step] at hs
    split at hs <;> cases hs
    next hi => exact ⟨i, .expireSender hi⟩
    next hi => exact ⟨i, .expireReceiver hi⟩
  | lapse i =>
    simp only [step] at hs
    split at hs <;> cases hs
    next hi => exact ⟨i, .lapse hi rfl⟩
    next hi => exact ⟨i, .lapse hi rfl⟩

/-! ## The queue that the callers see -/

/-- A bounded queue; `hold` are the messages taken and not yet given to the caller, with the size asked for. -/
structure Fifo (ι : Type*) where
  queue : List (List UInt8)
  hold : ι → Option (List UInt8 × ℕ)

def Fifo.empty : Fifo ι := ⟨[], fun _ => none⟩

/-- What may happen to a queue of `n` messages of at most `msgSize` bytes.  As many bytes are given as were
asked for, if the messages may be as long, and they are those of the message that was taken as far as it goes. -/
def Fifo.step (msgSize n : ℕ) : Event ι → Fifo ι → Option (Fifo ι)
  | .put buffer, q => if q.queue.length < n then some { q with queue := q.queue ++ [buffer] } else none
  | .urgent buffer, q => if q.queue.length < n then some { q with queue := buffer :: q.queue } else none
  | .take i size, q => match q.queue with
    | [] => none
    | m :: rest => some ⟨rest, Function.update q.hold i (some (m, size))⟩
  | .give i out, q => match q.hold i with
    | some (m, size) =>
      if out.length = min size msgSize ∧ out.take m.length = m.take out.length then
        some { q with hold := Function.update q.hold i none }
      else none
    | none => none
  | .error _ _, q => some q

end DataRecorder.Kernel
