/-
  Samples and their clock readings.

  The sample travels through `sensor_mq`, its clock reading through the globals
  that the next `rtc_read` overwrites, and the saver reads them at four places.
  In a run in which every `rtc_read` serves the samples that are still on their way
  (`Settled`), lines and minute files carry the reading of the sample's own
  iteration (`paired_of_settled`).
-/
import DataRecorder.Logger.Stranded

namespace DataRecorder

open Base Threads

/-- **Sample and time belong together**: every line carries the clock reading of its
    sample's iteration, and every flush opens the file of the newest sample. -/
structure Paired (s : Threads) : Prop where
  lines : ∀ p ∈ s.puts, p.line = strData p.message.sample p.message.stamp.time
  files : ∀ f ∈ s.flushes, f.path = csvName f.message.stamp

/-- The clock reading `c` serves the sample that the saver works on: the line takes
    its time, the test for second 59 and the names of folder and file its minute. -/
def Phase.Agrees (c : Rtc) : Phase → Prop
  | .format m => c = m.stamp
  | .test m => c.minute = m.stamp.minute ∨ c.time.seconds ≠ 59
  | .folder m | .file m _ => c.minute = m.stamp.minute
  | _ => True

/-- A new clock reading serves all the samples that are still on their way. -/
def Settled (s : Threads) (a : Action) : Prop :=
  ∀ d c, a = .produce d c → (∀ m ∈ s.mq, c = m.stamp) ∧ s.saver.Agrees c

instance (c : Rtc) : ∀ p : Phase, Decidable (p.Agrees c)
  | .format m => inferInstanceAs (Decidable (c = m.stamp))
  | .test m => inferInstanceAs (Decidable (c.minute = m.stamp.minute ∨ c.time.seconds ≠ 59))
  | .folder m | .file m _ => inferInstanceAs (Decidable (c.minute = m.stamp.minute))
  | .event | .eventWait | .queue | .queueWait | .openFile _ _ | .delay => isTrue trivial

instance (s : Threads) : ∀ a, Decidable (Settled s a)
  | .produce _ c => decidable_of_iff ((∀ m ∈ s.mq, c = m.stamp) ∧ s.saver.Agrees c)
    ⟨fun h _ _ he => (Action.produce.inj he).2 ▸ h, fun h => h _ _ rfl⟩
  | .mqSend | .eventSend | .eventRecv | .mqRecv | .format | .test | .folder | .file | .flush _ | .wake => isTrue nofun

/-- What the saver has read from the clock so far. -/
def Phase.Faithful : Phase → Prop
  | .file m today => today = m.stamp.today
  | .openFile m name => name.minute = m.stamp.minute
  | _ => True

/-- The globals serve every sample on its way. -/
structure Current (s : Threads) : Prop where
  queued : ∀ m ∈ s.mq, s.rtc = m.stamp
  produced : ∀ m, s.producer = .send m → s.rtc = m.stamp
  held : s.saver.Agrees s.rtc
  read : s.saver.Faithful
  paired : Paired s

theorem current_start (rtc : Rtc) (store : Saver) : Current (start rtc store) where
  queued := nofun
  produced := nofun
  held := trivial
  read := trivial
  paired := ⟨nofun, nofun⟩

variable {s s' : Threads}

theorem Phase.resumed_agrees {c : Rtc} {p : Phase} (h : p.Agrees c) : p.resumed.Agrees c := by
  cases p <;> exact h

theorem Phase.resumed_faithful {p : Phase} (h : p.Faithful) : p.resumed.Faithful := by
  cases p <;> exact h

theorem Current.keep (h : Current s) {p : Phase} {flag : Bool} (hp : p.Agrees s.rtc) (hf : p.Faithful) :
    Current { s with saver := p, flag := flag } where
  queued := h.queued
  produced := h.produced
  held := hp
  read := hf
  paired := ⟨h.paired.lines, h.paired.files⟩

theorem Current.step (h : Current s) {a : Action} (hg : Settled s a) (he : Effect s a s') : Current s' := by
  obtain ⟨hqueued, hproduced, hheld, hread, hlines, hfiles⟩ := id h
  cases he with
  | @produce d c hp =>
    obtain ⟨hmq, hsaver⟩ := hg d c rfl
    refine ⟨hmq, ?_, hsaver, hread, hlines, hfiles⟩
    rintro _ ⟨⟩; rfl
  | @mqSend m hp =>
    rw [rtMqSend]
    split
    · refine ⟨?_, (by simp), Phase.resumed_agrees hheld, Phase.resumed_faithful hread, hlines, hfiles⟩
      intro m' hm'
      rcases List.mem_append.1 hm' with hm' | hm'
      · exact hqueued m' hm'
      · rw [List.mem_singleton.1 hm']; exact hproduced m hp
    · exact ⟨hqueued, (by simp), hheld, hread, hlines, hfiles⟩
  | eventSend hp =>
    rw [rtEventSend]
    split
    · exact ⟨hqueued, (by simp), trivial, trivial, hlines, hfiles⟩
    · exact ⟨hqueued, (by simp), hheld, hread, hlines, hfiles⟩
  | eventRecv hs =>
    rw [rtEventRecv]
    split
    · exact h.keep trivial trivial
    · exact h.keep trivial trivial
  | mqRecv hs =>
    rw [rtMqRecv]
    cases hq : s.mq with
    | nil => exact ⟨(by simp), hproduced, trivial, trivial, hlines, hfiles⟩
    | cons m mq =>
      rw [hq] at hqueued
      exact ⟨fun m' hm' => hqueued m' (List.mem_cons_of_mem m hm'), hproduced, hqueued m List.mem_cons_self,
        trivial, hlines, hfiles⟩
  | @format m hs =>
    have hm : s.rtc = m.stamp := by simpa [hs, Phase.Agrees] using hheld
    refine ⟨hqueued, hproduced, .inl (congrArg Rtc.minute hm), trivial, ?_, hfiles⟩
    intro p hp
    rcases List.mem_append.1 hp with hp | hp
    · exact hlines p hp
    · rw [List.mem_singleton.1 hp, hm]
  | @test m hs =>
    rw [hs] at hheld
    by_cases h59 : s.rtc.time.seconds = 59
    · rw [if_pos h59]; exact h.keep (hheld.resolve_right (not_not.2 h59)) trivial
    · rw [if_neg h59]; exact h.keep trivial trivial
  | @folder m hs =>
    have hm : s.rtc.minute = m.stamp.minute := by simpa [hs, Phase.Agrees] using hheld
    exact h.keep hm (Rtc.minute_eq_iff.1 hm).1
  | @file m today hs =>
    rw [hs] at hheld hread
    obtain ⟨-, htime⟩ := Rtc.minute_eq_iff.1 hheld
    exact h.keep trivial (Rtc.minute_eq_iff.2 ⟨hread, htime⟩)
  | @flush m name io hs =>
    rw [hs] at hread
    refine ⟨hqueued, hproduced, trivial, trivial, hlines, ?_⟩
    intro f hf
    rcases List.mem_append.1 hf with hf | hf
    · exact hfiles f hf
    · rw [List.mem_singleton.1 hf, csvName_eq, csvName_eq]
      exact congrArg csvPath hread
  | wake hs => exact h.keep trivial trivial

section
variable {rtc : Rtc} {store : Saver} {as : List Action}

/-- **Every settled run** keeps samples and times together. -/
theorem paired_of_settled (hg : Guarded step Settled (start rtc store) as)
    (h : run step as (start rtc store) = some s) : Paired s :=
  (hg.run_inv (fun _ _ _ hs hp hstep => Current.step hs hp (step_effect hstep))
    (current_start rtc store) h).paired

end

def nextClock : Rtc := ⟨⟨12, 30, 11⟩, ⟨2021, 4, 24⟩⟩

theorem acrossMinute_paired : ∃ s, run step (acrossMinute ⟨3, fun _ => 2034⟩) (start noonClock emptyStore) = some s ∧
    s.puts.map (fun p => p.message.stamp) = [lastSecond, lastSecond, nextMinute] ∧
      s.flushes.map (fun f => f.message.stamp) = [lastSecond] ∧ Paired s := by
  have hg : Guarded step Settled (start noonClock emptyStore) (acrossMinute ⟨3, fun _ => 2034⟩) := by decide
  exact ⟨_, rfl, rfl, rfl, paired_of_settled hg rfl⟩

/-- A sample received before the next `rtc_read` and formatted after it. -/
def lateLine (d : SensorData) : List Action :=
  [.produce d noonClock, .mqSend, .eventSend, .eventRecv, .mqRecv, .produce d nextClock, .format]

/-- The line then carries the time of the next sample. -/
theorem mispaired : ¬ ∀ (rtc : Rtc) (store : Saver) (as : List Action) (s : Threads),
    run step as (start rtc store) = some s → Paired s := by
  intro h
  obtain ⟨s, hs, hputs⟩ : ∃ s, run step (lateLine ⟨25, 60⟩) (start noonClock emptyStore) = some s ∧
      s.puts = [⟨⟨⟨25, 60⟩, noonClock⟩, strData ⟨25, 60⟩ nextClock.time⟩] := ⟨_, rfl, rfl⟩
  have hline := (h _ _ _ _ hs).lines
  rw [hputs] at hline
  exact absurd (hline _ List.mem_cons_self) (by decide)

end DataRecorder
