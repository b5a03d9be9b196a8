/-
  The two threads of the logger as a transition system: the producer
  `read_temp_entry` and the saver `save_data_entry`, which share the message
  queue `sensor_mq`, one event flag and the clock globals.

  A step is one kernel call or one access of the saver to the clock globals, so
  the runs are the interleavings of these.  A message carries the clock reading
  of the iteration that produced it; no step of the code looks at it.

  * `step` is the transition function and `Effect` says what each step does;
  * `iteration_consume`: an iteration of the saver that is not interrupted is
    `Saver.consume`.
-/
import DataRecorder.Base.System
import DataRecorder.Logger.Saver

namespace DataRecorder

open Base

/-! ## States -/

/-- A message in `sensor_mq`, with the clock reading of its iteration. -/
structure Message where
  sample : SensorData
  stamp : Rtc

inductive Producer where
  | idle
  /-- before `rt_mq_send` -/
  | send (m : Message)
  /-- before `rt_event_send` -/
  | notify

/-- Where the saver is in its iteration. -/
inductive Phase where
  /-- before `rt_event_recv` -/
  | event
  /-- suspended in `rt_event_recv` -/
  | eventWait
  /-- before `rt_mq_recv`, or in it and ready to look at the queue -/
  | queue
  /-- suspended in `rt_mq_recv` -/
  | queueWait
  /-- before the line is formatted -/
  | format (m : Message)
  /-- before the test for second 59 -/
  | test (m : Message)
  /-- before the name of the folder is formatted -/
  | folder (m : Message)
  /-- before the name of the file is formatted -/
  | file (m : Message) (today : CalendarDate)
  /-- before `open` -/
  | openFile (m : Message) (name : Rtc)
  /-- in the `rt_thread_delay` after a flush -/
  | delay

/-- The phase after `rt_mq_send` resumed a suspended receiver. -/
def Phase.resumed : Phase → Phase
  | .queueWait => .queue
  | p => p

theorem Phase.resumed_eq {p : Phase} (h : p ≠ .queueWait) : p.resumed = p := by
  cases p <;> first | rfl | exact absurd rfl h

/-- A line that was put into the ring buffer, with the message it was formatted
    from. -/
structure Put where
  message : Message
  line : List UInt8

/-- A flush: the path that was opened, and the message in hand, the newest of the
    batch. -/
structure Flush where
  message : Message
  path : List UInt8

/-- The state of both threads.  `sent`, `dropped`, `puts` and `flushes` record what
    happened. -/
structure Threads where
  rtc : Rtc
  mq : List Message
  flag : Bool
  producer : Producer
  saver : Phase
  store : Saver
  sent : List Message
  dropped : List Message
  puts : List Put
  flushes : List Flush

def Threads.start (rtc : Rtc) (store : Saver) : Threads where
  rtc := rtc
  mq := []
  flag := false
  producer := .idle
  saver := .event
  store := store
  sent := []
  dropped := []
  puts := []
  flushes := []

/-! ## Kernel calls -/

namespace Threads

def mqSize : ℕ := 16

/-- `rt_mq_send`: a full queue refuses the message, and a suspended receiver is
    resumed. -/
def rtMqSend (s : Threads) (m : Message) : Threads :=
  if s.mq.length < mqSize then
    { s with
      mq := s.mq ++ [m]
      saver := s.saver.resumed
      sent := s.sent ++ [m] }
  else { s with dropped := s.dropped ++ [m] }

/-- `rt_event_send`: a suspended receiver is resumed and the flag cleared for it. -/
def rtEventSend (s : Threads) : Threads :=
  match s.saver with
  | .eventWait => { s with flag := false, saver := .queue }
  | _ => { s with flag := true }

/-- `rt_event_recv` with `RT_EVENT_FLAG_OR | RT_EVENT_FLAG_CLEAR`. -/
def rtEventRecv (s : Threads) : Threads :=
  if s.flag then { s with flag := false, saver := .queue } else { s with saver := .eventWait }

def rtMqRecv (s : Threads) : Threads :=
  match s.mq with
  | [] => { s with saver := .queueWait }
  | m :: mq => { s with mq := mq, saver := .format m }

/-- `sprintf` of the line and `rt_ringbuffer_put`. -/
def format (s : Threads) (m : Message) : Threads :=
  let line := strData m.sample s.rtc.time
  { s with
    store := { s.store with rb := (rtRingbufferPut s.store.rb line).1 }
    puts := s.puts ++ [⟨m, line⟩]
    saver := .test m }

/-- `open`, the drain loop and `close`. -/
def flushTo (s : Threads) (m : Message) (name : Rtc) (io : Io) : Threads :=
  let f := flush io name s.store.rb s.store.files
  { s with
    store := ⟨f.1, f.2.1⟩
    flushes := s.flushes ++ [⟨m, csvName name⟩]
    saver := .delay }

/-! ## Steps -/

inductive Action where
  /-- the producer reads a sample and runs `rtc_read` -/
  | produce (sample : SensorData) (clock : Rtc)
  | mqSend
  | eventSend
  | eventRecv
  | mqRecv
  | format
  | test
  | folder
  | file
  | flush (io : Io)
  | wake

/-- The transition function. -/
def step : Action → Threads → Option Threads
  | .produce sample clock, s => match s.producer with
    | .idle => some { s with rtc := clock, producer := .send ⟨sample, clock⟩ }
    | _ => none
  | .mqSend, s => match s.producer with
    | .send m => some { s.rtMqSend m with producer := .notify }
    | _ => none
  | .eventSend, s => match s.producer with
    | .notify => some { s.rtEventSend with producer := .idle }
    | _ => none
  | .eventRecv, s => match s.saver with
    | .event => some s.rtEventRecv
    | _ => none
  | .mqRecv, s => match s.saver with
    | .queue => some s.rtMqRecv
    | _ => none
  | .format, s => match s.saver with
    | .format m => some (s.format m)
    | _ => none
  | .test, s => match s.saver with
    | .test m => some { s with saver := if s.rtc.time.seconds = 59 then .folder m else .event }
    | _ => none
  | .folder, s => match s.saver with
    | .folder m => some { s with saver := .file m s.rtc.today }
    | _ => none
  | .file, s => match s.saver with
    | .file m today => some { s with saver := .openFile m ⟨s.rtc.time, today⟩ }
    | _ => none
  | .flush io, s => match s.saver with
    | .openFile m name => some (s.flushTo m name io)
    | _ => none
  | .wake, s => match s.saver with
    | .delay => some { s with saver := .event }
    | _ => none

inductive Effect (s : Threads) : Action → Threads → Prop where
  | produce {d c} (h : s.producer = .idle) :
    Effect s (.produce d c) { s with rtc := c, producer := .send ⟨d, c⟩ }
  | mqSend {m} (h : s.producer = .send m) : Effect s .mqSend { s.rtMqSend m with producer := .notify }
  | eventSend (h : s.producer = .notify) : Effect s .eventSend { s.rtEventSend with producer := .idle }
  | eventRecv (h : s.saver = .event) : Effect s .eventRecv s.rtEventRecv
  | mqRecv (h : s.saver = .queue) : Effect s .mqRecv s.rtMqRecv
  | format {m} (h : s.saver = .format m) : Effect s .format (s.format m)
  | test {m} (h : s.saver = .test m) :
    Effect s .test { s with saver := if s.rtc.time.seconds = 59 then .folder m else .event }
  | folder {m} (h : s.saver = .folder m) : Effect s .folder { s with saver := .file m s.rtc.today }
  | file {m today} (h : s.saver = .file m today) :
    Effect s .file { s with saver := .openFile m ⟨s.rtc.time, today⟩ }
  | flush {m name io} (h : s.saver = .openFile m name) : Effect s (.flush io) (s.flushTo m name io)
  | wake (h : s.saver = .delay) : Effect s .wake { s with saver := .event }

/-- **Inversion of a step.** -/
theorem step_effect {a : Action} {s s' : Threads} (h : step a s = some s') : Effect s a s' := by
  cases a <;> simp only [step] at h <;> split at h <;> cases h <;> constructor <;> assumption

/-! ## The saver's iteration without interruption -/

/-- From a received message on, the steps of the saver alone are `Saver.consume`. -/
theorem iteration_consume (s : Threads) {m : Message} (h : s.saver = .format m) (io : Io) :
    ∃ as s', run step as s = some s' ∧ s'.saver = .event ∧
      s'.store = s.store.consume ⟨m.sample, s.rtc, io⟩ := by
  by_cases hs : s.rtc.time.seconds = 59
  · refine ⟨[.format, .test, .folder, .file, .flush io, .wake], ?_⟩
    simp [run, step, h, hs, Threads.format, Threads.flushTo, Saver.consume, Consumed.line]
  · refine ⟨[.format, .test], ?_⟩
    simp [run, step, h, hs, Threads.format, Saver.consume, Consumed.line]

end Threads

end DataRecorder
