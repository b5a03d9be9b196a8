/-
  The timers of the kernel (`timer.c`, `clock.c`).

  `rt_timer_list` holds the hard timers that run, the one that expires first in front;
  its skip list has one level (`RT_TIMER_SKIP_LIST_LEVEL`).  The clock interrupt counts
  a tick and checks the list.  The check is a step for each timer that it finds expired:
  `next` takes it off the list and calls its timeout function, which may do with any
  timer what threads may do; `ret` is its end.  `none` is a step that cannot be taken,
  or an assertion that fails.
-/
import DataRecorder.Base.Alarms
import DataRecorder.Kernel.Rtdef

namespace DataRecorder.Kernel

open Base

abbrev RT_TICK_MAX : UInt32 := 0xffffffff

/-- `struct rt_timer`, with two bits of its `flag`. -/
structure Timer where
  timeoutTick : UInt32
  initTick : UInt32
  activated : Bool
  periodic : Bool
  deriving DecidableEq

inductive Phase (ι : Type*) where
  /-- outside of the interrupt -/
  | thread
  | check
  /-- in the timeout function of a timer -/
  | call (t : ι)
  deriving DecidableEq

structure TimerSystem (ι : Type*) where
  rtTick : UInt32
  rtTimerList : List ι
  /-- the list of `rt_timer_check` -/
  list : List ι
  timer : ι → Timer
  phase : Phase ι
  /-- what happened -/
  log : List (Notice ι)

inductive TimerCmd where
  | getTime
  | setTime (tick : UInt32)
  | setOneshot
  | setPeriodic
  | getState
  deriving DecidableEq

inductive TimerAct (ι : Type*) where
  | start (i : ι)
  | stop (i : ι)
  | detach (i : ι)
  | control (i : ι) (cmd : TimerCmd)
  | tick
  | next
  | ret
  deriving DecidableEq

namespace TimerSystem

variable {ι : Type*}

/-- No timer runs. -/
def init (rtTick : UInt32) (timer : ι → Timer) : TimerSystem ι := ⟨rtTick, [], [], timer, .thread, []⟩

variable [DecidableEq ι]

/-- `_rt_timer_remove`. -/
def remove (s : TimerSystem ι) (t : ι) : TimerSystem ι :=
  { s with rtTimerList := s.rtTimerList.filter (· ≠ t), list := s.list.filter (· ≠ t) }

def set (s : TimerSystem ι) (t : ι) (x : Timer) : TimerSystem ι := { s with timer := Function.update s.timer t x }

@[simp] theorem set_timer_self (s : TimerSystem ι) (t : ι) (x : Timer) : (s.set t x).timer t = x :=
  Function.update_self ..

theorem set_timer_of_ne (s : TimerSystem ι) {t u : ι} (x : Timer) (h : u ≠ t) : (s.set t x).timer u = s.timer u :=
  Function.update_of_ne h ..

def note (s : TimerSystem ι) (e : Notice ι) : TimerSystem ι := { s with log := s.log ++ [e] }

/-- The loop of `rt_timer_start` goes past the timer `t`. -/
def passes (s : TimerSystem ι) (timeoutTick : UInt32) (t : ι) : Bool :=
  (s.timer t).timeoutTick - timeoutTick = 0 ∨ ¬ (s.timer t).timeoutTick - timeoutTick < RT_TICK_MAX / 2

/-- The timer `t` will expire at `timeoutTick`. -/
def insert (s : TimerSystem ι) (t : ι) (timeoutTick : UInt32) : TimerSystem ι :=
  { s.set t { s.timer t with timeoutTick, activated := true } with
    rtTimerList := s.rtTimerList.takeWhile (s.passes timeoutTick) ++
      t :: s.rtTimerList.dropWhile (s.passes timeoutTick) }

def rtTimerStart (s : TimerSystem ι) (t : ι) : Option (TimerSystem ι) :=
  let s := s.remove t
  let initTick := (s.timer t).initTick
  if initTick < RT_TICK_MAX / 2 then
    some ((s.insert t (s.rtTick + initTick)).note (.started t initTick.toNat))
  else none

def rtTimerStop (s : TimerSystem ι) (t : ι) : TimerSystem ι × ℤ :=
  if (s.timer t).activated then
    (((s.remove t).set t { s.timer t with activated := false }).note (.stopped t), 0)
  else (s, -RT_ERROR)

def rtTimerDetach (s : TimerSystem ι) (t : ι) : TimerSystem ι :=
  ((s.remove t).set t { s.timer t with activated := false }).note (.stopped t)

/-- The state, and what is written to `arg`. -/
def rtTimerControl (s : TimerSystem ι) (t : ι) : TimerCmd → TimerSystem ι × Option UInt32
  | .getTime => (s, some (s.timer t).initTick)
  | .setTime tick => (s.set t { s.timer t with initTick := tick }, none)
  | .setOneshot => (s.set t { s.timer t with periodic := false }, none)
  | .setPeriodic => (s.set t { s.timer t with periodic := true }, none)
  | .getState => (s, some (if (s.timer t).activated then 1 else 0))

/-- `rt_tick_increase`, up to the call of `rt_timer_check`. -/
def rtTickIncrease (s : TimerSystem ι) : TimerSystem ι :=
  ({ s with rtTick := s.rtTick + 1, phase := .check }).note .tick

/-- The timer `t` is taken off the list, and its timeout function is called. -/
def expire (s : TimerSystem ι) (t : ι) : TimerSystem ι :=
  let s := s.remove t
  let s := if (s.timer t).periodic then s else s.set t { s.timer t with activated := false }
  ({ s with list := t :: s.list, phase := .call t }).note (.fired t)

/-- `rt_timer_check` looks at the first timer. -/
def checkNext (s : TimerSystem ι) : TimerSystem ι :=
  match s.rtTimerList with
  | [] => { s with phase := .thread }
  | t :: _ =>
    if s.rtTick - (s.timer t).timeoutTick < RT_TICK_MAX / 2 then s.expire t else { s with phase := .thread }

/-- The timeout function of `t` returns. -/
def checkRet (s : TimerSystem ι) (t : ι) : Option (TimerSystem ι) :=
  if s.list = [] then some { s with phase := .check }
  else
    let s := { s with list := s.list.filter (· ≠ t), phase := .check }
    if (s.timer t).periodic ∧ (s.timer t).activated then
      (s.set t { s.timer t with activated := false }).rtTimerStart t
    else some s

def step : TimerAct ι → TimerSystem ι → Option (TimerSystem ι)
  | .start t, s => if s.phase = .check then none else s.rtTimerStart t
  | .stop t, s => if s.phase = .check then none else some (s.rtTimerStop t).1
  | .detach t, s => if s.phase = .check then none else some (s.rtTimerDetach t)
  | .control t cmd, s => if s.phase = .check then none else some (s.rtTimerControl t cmd).1
  | .tick, s => if s.phase = .thread then some s.rtTickIncrease else none
  | .next, s => if s.phase = .check then some s.checkNext else none
  | .ret, s => match s.phase with
    | .call t => s.checkRet t
    | _ => none

/-- Timers that start during the check have some ticks to go. -/
def Timely (s : TimerSystem ι) : TimerAct ι → Prop
  | .start t => s.phase = .thread ∨ 0 < (s.timer t).initTick
  | .ret => ∀ t ∈ s.list, (s.timer t).periodic = true → 0 < (s.timer t).initTick
  | _ => True

instance (s : TimerSystem ι) : ∀ act, Decidable (s.Timely act)
  | .start t => inferInstanceAs (Decidable (s.phase = .thread ∨ 0 < (s.timer t).initTick))
  | .ret => inferInstanceAs (Decidable (∀ t ∈ s.list, (s.timer t).periodic = true → 0 < (s.timer t).initTick))
  | .stop _ | .detach _ | .control _ _ | .tick | .next => isTrue trivial

end TimerSystem

end DataRecorder.Kernel
