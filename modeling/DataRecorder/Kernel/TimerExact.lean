/-
  Timers go off exactly when they should.

  The list of running timers is the list of alarms of a service whose clock does not
  wrap around (`Synced`): it is sorted by the ticks that the timers were set for, and
  all of these lie so close together that the comparisons modulo 2^32 are right.

  * `step_synced`: every step keeps this;
  * `timers_exact`: what happens in a run could happen in the service.
-/
import DataRecorder.Kernel.Timer

namespace DataRecorder.Kernel

open Base TimerSystem

/-! ## Comparisons modulo 2^32 -/

variable {k m : ℕ}

theorem ofNat_sub_toNat (hmk : m ≤ k) (hk : k - m < 4294967296) : (UInt32.ofNat k - UInt32.ofNat m).toNat = k - m := by
  rw [UInt32.toNat_sub, UInt32.toNat_ofNat', UInt32.toNat_ofNat']
  omega

theorem ofNat_sub_toNat_of_lt (hkm : k < m) (hm : m - k < 4294967296) :
    (UInt32.ofNat k - UInt32.ofNat m).toNat = 4294967296 - (m - k) := by
  rw [UInt32.toNat_sub, UInt32.toNat_ofNat', UInt32.toNat_ofNat']
  omega

/-- The later of two ticks is seen to be later. -/
theorem ofNat_sub_lt_iff (hk : k < m + 2147483647) (hm : m ≤ k + 2147483647) :
    UInt32.ofNat k - UInt32.ofNat m < RT_TICK_MAX / 2 ↔ m ≤ k := by
  have hhalf : (RT_TICK_MAX / 2).toNat = 2147483647 := by decide
  rw [UInt32.lt_iff_toNat_lt, hhalf]
  rcases Nat.lt_or_ge k m with hlt | hge
  · rw [ofNat_sub_toNat_of_lt hlt (by omega)]
    omega
  · rw [ofNat_sub_toNat hge (by omega)]
    omega

theorem ofNat_sub_eq_zero_iff (hk : k < m + 2147483647) (hm : m ≤ k + 2147483647) :
    UInt32.ofNat k - UInt32.ofNat m = 0 ↔ k = m := by
  rw [← UInt32.toNat_inj, UInt32.toNat_zero]
  rcases Nat.lt_or_ge k m with hlt | hge
  · rw [ofNat_sub_toNat_of_lt hlt (by omega)]
    omega
  · rw [ofNat_sub_toNat hge (by omega)]
    omega

/-! ## The service behind the timers -/

section
variable {ι : Type*}

/-- How far an alarm that is due may lie behind. -/
def Phase.lag : Phase ι → ℕ
  | .thread => 0
  | _ => 1

theorem Phase.lag_le : (p : Phase ι) → p.lag ≤ 1
  | .thread => Nat.zero_le 1
  | .check | .call _ => Nat.le_refl 1

structure Synced [DecidableEq ι] (t₀ : ℕ) (s : TimerSystem ι) (a : Service ι) : Prop where
  history : run Service.step s.log ⟨t₀, []⟩ = some a
  tick : s.rtTick = .ofNat a.now
  list : s.rtTimerList = a.pending.map Alarm.id
  nodup : s.rtTimerList.Nodup
  sorted : a.pending.Pairwise fun b c => b.key ≤ c.key
  timers : ∀ b ∈ a.pending, (s.timer b.id).timeoutTick = .ofNat b.key
  window : ∀ b ∈ a.pending, a.now ≤ b.key + s.phase.lag ∧ b.key ≤ a.now + 2147483646
  due : ∀ b ∈ a.pending, b.due = max b.key (a.now + 1 - s.phase.lag)
  call : s.list = [] ∨ ∃ t, s.phase = .call t ∧ s.list = [t]

variable [DecidableEq ι] {t₀ : ℕ} {s s' : TimerSystem ι} {a : Service ι} {t : ι} {x : Timer}

theorem history_snoc {a' : Service ι} {e : Notice ι} (h : run Service.step s.log ⟨t₀, []⟩ = some a)
    (he : a.step e = some a') : run Service.step (s.note e).log ⟨t₀, []⟩ = some a' :=
  run_snoc_some.2 ⟨a, h, he⟩

/-- What else is known of a timer changes. -/
theorem Synced.set (hs : Synced t₀ s a) (hx : x.timeoutTick = (s.timer t).timeoutTick) : Synced t₀ (s.set t x) a := by
  refine { hs with timers := fun b hb => ?_ }
  rw [← hs.timers b hb]
  by_cases hbt : b.id = t
  · rw [hbt, set_timer_self, hx]
  · rw [set_timer_of_ne _ _ hbt]

/-- A timer is taken off the list. -/
theorem Synced.remove (hs : Synced t₀ s a) (t : ι) :
    Synced t₀ ((s.remove t).note (.stopped t)) { a with pending := drop t a.pending } := by
  refine ⟨history_snoc hs.history rfl, hs.tick, ?_, hs.nodup.filter _, hs.sorted.filter _,
    fun b hb => hs.timers b (mem_drop.1 hb).1, fun b hb => hs.window b (mem_drop.1 hb).1,
    fun b hb => hs.due b (mem_drop.1 hb).1, ?_⟩
  · rw [map_drop, ← hs.list]
    rfl
  · show s.list.filter (· ≠ t) = [] ∨ ∃ u, s.phase = .call u ∧ s.list.filter (· ≠ t) = [u]
    rcases hs.call with hl | ⟨u, hp, hl⟩
    · exact Or.inl (by simp [hl])
    · by_cases hut : u = t
      · exact Or.inl (by simp [hl, hut])
      · exact Or.inr ⟨u, hp, by simp [hl, hut]⟩

theorem Synced.detach (hs : Synced t₀ s a) (t : ι) :
    Synced t₀ (s.rtTimerDetach t) { a with pending := drop t a.pending } :=
  (hs.set (x := { s.timer t with activated := false }) rfl).remove t

theorem passes_iff (hs : Synced t₀ s a) {n : ℕ} (hn : n ≤ 2147483646) {b : Alarm ι} (hb : b ∈ a.pending) :
    s.passes (.ofNat (a.now + n)) b.id = decide (b.key ≤ a.now + n) := by
  obtain ⟨hlow, hhigh⟩ := hs.window b hb
  have hlag : s.phase.lag ≤ 1 := s.phase.lag_le
  rw [TimerSystem.passes, hs.timers b hb, decide_eq_decide, ofNat_sub_lt_iff (by omega) (by omega),
    ofNat_sub_eq_zero_iff (by omega) (by omega)]
  omega

theorem Synced.insert (hs : Synced t₀ s a) {n : ℕ} (hn : n ≤ 2147483646) (ht : s.phase = .thread ∨ 0 < n) {tt : UInt32}
    (htt : tt = .ofNat (a.now + n)) : Synced t₀ (((s.remove t).insert t tt).note (.started t n))
      { a with pending := enter ⟨t, a.now + n, a.now + max n 1⟩ (drop t a.pending) } := by
  have hpasses : ∀ b ∈ drop t a.pending, s.passes tt b.id = decide (b.key ≤ a.now + n) := by
    intro b hb
    rw [htt]
    exact passes_iff hs hn (mem_drop.1 hb).1
  have hlist : s.rtTimerList.filter (· ≠ t) = (drop t a.pending).map Alarm.id := by rw [map_drop, hs.list]
  have hmap := map_enter (a := ⟨t, a.now + n, a.now + max n 1⟩) hpasses
  rw [← hlist] at hmap
  refine ⟨history_snoc hs.history rfl, hs.tick, hmap.symm, ?_, sorted_enter (hs.sorted.filter _), ?_, ?_, ?_,
    (hs.remove t).call⟩
  · have hnodup : ((enter ⟨t, a.now + n, a.now + max n 1⟩ (drop t a.pending)).map Alarm.id).Nodup := by
      rw [((enter_perm _ _).map Alarm.id).nodup_iff, List.map_cons, ← hlist, List.nodup_cons]
      exact ⟨by simp, hs.nodup.filter _⟩
    rw [hmap] at hnodup
    exact hnodup
  · intro b hb
    show ((s.set t _).timer b.id).timeoutTick = _
    rcases mem_enter.1 hb with rfl | hb
    · rw [set_timer_self]
      exact htt
    · obtain ⟨hb, hbt⟩ := mem_drop.1 hb
      rw [set_timer_of_ne _ _ hbt]
      exact hs.timers b hb
  · intro b hb
    rcases mem_enter.1 hb with rfl | hb
    · show a.now ≤ a.now + n + _ ∧ a.now + n ≤ a.now + 2147483646
      omega
    · exact hs.window b (mem_drop.1 hb).1
  · intro b hb
    rcases mem_enter.1 hb with rfl | hb
    · show a.now + max n 1 = max (a.now + n) (a.now + 1 - s.phase.lag)
      rcases ht with ht | ht
      · rw [ht, Phase.lag]
        omega
      · omega
    · exact hs.due b (mem_drop.1 hb).1

/-- What `rt_timer_start` does. -/
theorem rtTimerStart_some (h : s.rtTimerStart t = some s') :
    (s.timer t).initTick < RT_TICK_MAX / 2 ∧ s' = ((s.remove t).insert t (s.rtTick + (s.timer t).initTick)).note
      (.started t (s.timer t).initTick.toNat) := by
  simp only [rtTimerStart] at h
  split_ifs at h with hmax
  exact ⟨hmax, (Option.some.inj h).symm⟩

theorem Synced.start (hs : Synced t₀ s a) (ht : s.phase = .thread ∨ 0 < (s.timer t).initTick)
    (h : s.rtTimerStart t = some s') : Synced t₀ s' { a with
      pending := enter ⟨t, a.now + (s.timer t).initTick.toNat, a.now + max (s.timer t).initTick.toNat 1⟩
        (drop t a.pending) } := by
  obtain ⟨hmax, rfl⟩ := rtTimerStart_some h
  have hhalf : (RT_TICK_MAX / 2).toNat = 2147483647 := by decide
  rw [UInt32.lt_iff_toNat_lt, hhalf] at hmax
  refine hs.insert (by omega) ?_ ?_
  · rwa [UInt32.lt_iff_toNat_lt] at ht
  · rw [hs.tick, UInt32.ofNat_add, UInt32.ofNat_toNat]

theorem Synced.tickIncrease (hs : Synced t₀ s a) (hp : s.phase = .thread) :
    Synced t₀ s.rtTickIncrease { a with now := a.now + 1 } := by
  have hdue : ∀ b ∈ a.pending, a.now ≤ b.key ∧ b.due = max b.key (a.now + 1) := by
    intro b hb
    have hwindow := (hs.window b hb).1
    have hdue := hs.due b hb
    rw [hp] at hwindow hdue
    exact ⟨hwindow, hdue⟩
  refine ⟨history_snoc hs.history (if_pos fun b hb => ?_), ?_, hs.list, hs.nodup, hs.sorted, hs.timers, fun b hb => ?_,
    fun b hb => ?_, ?_⟩
  · have := (hdue b hb).2
    omega
  · rw [UInt32.ofNat_add, ← hs.tick]
    rfl
  · have := (hdue b hb).1
    have := (hs.window b hb).2
    show a.now + 1 ≤ b.key + 1 ∧ b.key ≤ a.now + 1 + 2147483646
    omega
  · exact (hdue b hb).2
  · rcases hs.call with hl | ⟨t, hc, -⟩
    · exact Or.inl hl
    · rw [hp] at hc
      cases hc

/-- The check is over when the first timer has not expired. -/
theorem Synced.rest (hs : Synced t₀ s a) (hp : s.phase = .check) (hnone : ∀ b ∈ a.pending, a.now < b.key) :
    Synced t₀ { s with phase := .thread } a := by
  refine { hs with window := fun b hb => ?_, due := fun b hb => ?_, call := ?_ }
  · have := (hs.window b hb).2
    have := hnone b hb
    show a.now ≤ b.key + 0 ∧ _
    omega
  · have hdue := hs.due b hb
    rw [hp] at hdue
    have hlt := hnone b hb
    have hdue : b.due = max b.key a.now := hdue
    show b.due = max b.key (a.now + 1)
    omega
  · rcases hs.call with hl | ⟨t, hc, -⟩
    · exact Or.inl hl
    · rw [hp] at hc
      cases hc

/-- `rt_timer_check` compares the clock with the time of the first timer. -/
theorem expired_iff (hs : Synced t₀ s a) {b : Alarm ι} (hb : b ∈ a.pending) :
    s.rtTick - (s.timer b.id).timeoutTick < RT_TICK_MAX / 2 ↔ b.key ≤ a.now := by
  obtain ⟨hlow, hhigh⟩ := hs.window b hb
  have hlag := s.phase.lag_le
  rw [hs.tick, hs.timers b hb, ofNat_sub_lt_iff (by omega) (by omega)]

theorem expire_fields (s : TimerSystem ι) (t : ι) : (s.expire t).rtTick = s.rtTick ∧
    (s.expire t).rtTimerList = s.rtTimerList.filter (· ≠ t) ∧ (s.expire t).list = t :: s.list.filter (· ≠ t) ∧
    (s.expire t).phase = .call t ∧ (s.expire t).log = s.log ++ [.fired t] ∧
    (s.expire t).timer = Function.update s.timer t
      { s.timer t with activated := (s.timer t).activated && (s.timer t).periodic } := by
  by_cases hp : ((s.remove t).timer t).periodic = true
  · have hx : ({ s.timer t with activated := (s.timer t).activated && (s.timer t).periodic } : Timer) = s.timer t := by
      have hp : (s.timer t).periodic = true := hp
      cases hy : s.timer t
      simp_all
    simp only [TimerSystem.expire, if_pos hp]
    refine ⟨rfl, rfl, rfl, rfl, rfl, ?_⟩
    rw [hx, Function.update_eq_self]
    rfl
  · have hx : ({ s.timer t with activated := (s.timer t).activated && (s.timer t).periodic } : Timer) =
        { s.timer t with activated := false } := by
      have hp : (s.timer t).periodic = false := Bool.eq_false_iff.2 hp
      rw [hp, Bool.and_false]
    simp only [TimerSystem.expire, if_neg hp]
    refine ⟨rfl, rfl, rfl, rfl, rfl, ?_⟩
    rw [hx]
    rfl

/-- The first timer is called. -/
theorem Synced.expire {b : Alarm ι} {l : List (Alarm ι)} (hs : Synced t₀ s a) (hp : s.phase = .check)
    (ha : a.pending = b :: l) (hb : b.key ≤ a.now) : Synced t₀ (s.expire b.id) { a with pending := l } := by
  have hsub : ∀ c ∈ l, c ∈ a.pending := fun c hc => ha ▸ List.mem_cons_of_mem b hc
  have hcons : s.rtTimerList = b.id :: l.map Alarm.id := by rw [hs.list, ha, List.map_cons]
  have hnodup := hs.nodup
  rw [hcons, List.nodup_cons] at hnodup
  have htail : s.rtTimerList.filter (· ≠ b.id) = l.map Alarm.id := by
    rw [hcons, List.filter_cons_of_neg (by simp), List.filter_eq_self]
    intro u hu
    simpa using fun he : u = b.id => hnodup.1 (he ▸ hu)
  have hlist : s.list = [] := by
    rcases hs.call with hl | ⟨t, hc, -⟩
    · exact hl
    · rw [hp] at hc
      cases hc
  have hbusy : ∀ c ∈ a.pending, a.now ≤ c.key + 1 ∧ c.due = max c.key a.now := by
    intro c hc
    have hwindow := (hs.window c hc).1
    have hdue := hs.due c hc
    rw [hp] at hwindow hdue
    exact ⟨hwindow, hdue⟩
  obtain ⟨htick, hrow, htemp, hphase, hlog, htimer⟩ := expire_fields s b.id
  refine ⟨?_, htick.trans hs.tick, hrow.trans htail, ?_, ?_, fun c hc => ?_, fun c hc => ?_, fun c hc => ?_, ?_⟩
  · rw [hlog]
    refine run_snoc_some.2 ⟨a, hs.history, ?_⟩
    have hdue : b.due = a.now := by
      have := (hbusy b (ha ▸ List.mem_cons_self)).2
      omega
    have hhead : ∃ c ∈ a.pending.head?, c.id = b.id ∧ c.due = a.now := ⟨b, by rw [ha]; rfl, rfl, hdue⟩
    rw [Service.step, if_pos hhead, ha, List.tail_cons]
  · rw [hrow, htail]
    exact hnodup.2
  · have hsorted := hs.sorted
    rw [ha] at hsorted
    exact (List.pairwise_cons.1 hsorted).2
  · rw [htimer, ← hs.timers c (hsub c hc)]
    by_cases hcb : c.id = b.id
    · rw [hcb, Function.update_self]
    · rw [Function.update_of_ne hcb]
  · rw [hphase]
    exact ⟨(hbusy c (hsub c hc)).1, (hs.window c (hsub c hc)).2⟩
  · rw [hphase]
    exact (hbusy c (hsub c hc)).2
  · refine Or.inr ⟨b.id, hphase, ?_⟩
    rw [htemp, hlist]
    rfl

/-- **One look at the list**: the first timer is called, or none has expired. -/
theorem Synced.checkNext (hs : Synced t₀ s a) (hp : s.phase = .check) :
    (∃ b l, a.pending = b :: l ∧ b.due = a.now ∧ s.checkNext = s.expire b.id ∧
      Synced t₀ s.checkNext { a with pending := l }) ∨
    s.checkNext = { s with phase := .thread } ∧ Synced t₀ s.checkNext a := by
  cases ha : a.pending with
  | nil =>
    have hnil : s.rtTimerList = [] := by rw [hs.list, ha, List.map_nil]
    have hnext : s.checkNext = { s with phase := .thread } := by rw [TimerSystem.checkNext, hnil]
    refine Or.inr ⟨hnext, ?_⟩
    rw [hnext]
    exact hs.rest hp fun b hb => by simp [ha] at hb
  | cons b l =>
    have hcons : s.rtTimerList = b.id :: l.map Alarm.id := by rw [hs.list, ha, List.map_cons]
    have hmem : b ∈ a.pending := ha ▸ List.mem_cons_self
    by_cases hb : b.key ≤ a.now
    · have hnext : s.checkNext = s.expire b.id := by
        rw [TimerSystem.checkNext, hcons]
        exact if_pos ((expired_iff hs hmem).2 hb)
      have hdue : b.due = a.now := by
        have := hs.due b hmem
        rw [hp] at this
        have : b.due = max b.key a.now := this
        omega
      exact Or.inl ⟨b, l, rfl, hdue, hnext, hnext ▸ hs.expire hp ha hb⟩
    · have hnext : s.checkNext = { s with phase := .thread } := by
        rw [TimerSystem.checkNext, hcons]
        exact if_neg fun h => hb ((expired_iff hs hmem).1 h)
      refine Or.inr ⟨hnext, ?_⟩
      rw [hnext]
      refine hs.rest hp fun c hc => ?_
      have hsorted := hs.sorted
      rw [ha] at hsorted hc
      rcases List.mem_cons.1 hc with rfl | hc
      · omega
      · have := (List.pairwise_cons.1 hsorted).1 c hc
        omega

/-- In the timeout function of a timer, no other timer is on the temporary list. -/
theorem Synced.filter_list (hs : Synced t₀ s a) (hp : s.phase = .call t) : s.list.filter (· ≠ t) = [] := by
  rcases hs.call with hl | ⟨u, hc, hl⟩
  · rw [hl]
    rfl
  · rw [hp] at hc
    cases hc
    simp [hl]

theorem Synced.leave (hs : Synced t₀ s a) (hp : s.phase = .call t) :
    Synced t₀ { s with list := s.list.filter (· ≠ t), phase := .check } a := by
  refine { hs with window := fun b hb => ?_, due := fun b hb => ?_, call := Or.inl (hs.filter_list hp) }
  · have hwindow := hs.window b hb
    rw [hp] at hwindow
    exact hwindow
  · have hdue := hs.due b hb
    rw [hp] at hdue
    exact hdue

/-- **The end of a timeout function**: a periodic timer that was left alone starts again. -/
theorem Synced.ret (hs : Synced t₀ s a) (hp : s.phase = .call t)
    (ht : ∀ u ∈ s.list, (s.timer u).periodic = true → 0 < (s.timer u).initTick) (h : s.checkRet t = some s') :
    ∃ a', Synced t₀ s' a' := by
  have hleave := hs.leave hp
  simp only [TimerSystem.checkRet] at h
  split_ifs at h with hnil hagain
  · cases h
    have heq : ({ s with list := s.list.filter (· ≠ t), phase := .check } : TimerSystem ι) =
        { s with phase := .check } := by
      rw [hnil, List.filter_nil]
    exact ⟨a, heq ▸ hleave⟩
  · have hmem : t ∈ s.list := by
      rcases hs.call with hl | ⟨u, hc, hl⟩
      · exact absurd hl hnil
      · rw [hp] at hc
        cases hc
        rw [hl]
        exact List.mem_singleton_self t
    refine ⟨_, Synced.start (hleave.set ?_) (Or.inr ?_) h⟩
    · rfl
    · rw [set_timer_self]
      exact ht t hmem hagain.1
  · cases h
    exact ⟨a, hleave⟩

/-- **One step.** -/
theorem step_synced {act : TimerAct ι} (hs : Synced t₀ s a) (ht : s.Timely act) (h : TimerSystem.step act s = some s') :
    ∃ a', Synced t₀ s' a' := by
  cases act with
  | start t =>
    simp only [TimerSystem.step] at h
    split_ifs at h
    exact ⟨_, hs.start ht h⟩
  | stop t =>
    simp only [TimerSystem.step] at h
    split_ifs at h
    cases h
    unfold rtTimerStop
    split_ifs
    · exact ⟨_, hs.detach t⟩
    · exact ⟨a, hs⟩
  | detach t =>
    simp only [TimerSystem.step] at h
    split_ifs at h
    cases h
    exact ⟨_, hs.detach t⟩
  | control t cmd =>
    simp only [TimerSystem.step] at h
    split_ifs at h
    cases h
    refine ⟨a, ?_⟩
    cases cmd with
    | getTime | getState => exact hs
    | setTime tick => exact hs.set rfl
    | setOneshot | setPeriodic => exact hs.set rfl
  | tick =>
    simp only [TimerSystem.step] at h
    split_ifs at h with hp
    cases h
    exact ⟨_, hs.tickIncrease hp⟩
  | next =>
    simp only [TimerSystem.step] at h
    split_ifs at h with hp
    cases h
    rcases hs.checkNext hp with ⟨b, l, -, -, -, hs'⟩ | ⟨-, hs'⟩
    · exact ⟨_, hs'⟩
    · exact ⟨a, hs'⟩
  | ret =>
    cases hp : s.phase with
    | call t =>
      simp only [TimerSystem.step, hp] at h
      exact hs.ret hp ht h
    | thread | check =>
      simp only [TimerSystem.step, hp] at h
      cases h

theorem init_synced (rtTick : UInt32) (timer : ι → Timer) :
    Synced rtTick.toNat (TimerSystem.init rtTick timer) ⟨rtTick.toNat, []⟩ := by
  refine ⟨rfl, UInt32.ofNat_toNat.symm, rfl, List.nodup_nil, List.Pairwise.nil, ?_, ?_, ?_, Or.inl rfl⟩ <;>
    (intro b hb; cases hb)

theorem run_synced {rtTick : UInt32} {timer : ι → Timer} {acts : List (TimerAct ι)}
    (hacts : Guarded TimerSystem.step TimerSystem.Timely (TimerSystem.init rtTick timer) acts)
    (h : run TimerSystem.step acts (TimerSystem.init rtTick timer) = some s) : ∃ a, Synced rtTick.toNat s a := by
  refine hacts.run_inv (I := fun s => ∃ a, Synced rtTick.toNat s a) ?_ ⟨_, init_synced rtTick timer⟩ h
  rintro s act s' ⟨a, hs⟩ ht hs'
  exact step_synced hs ht hs'

/-- **Timers are exact.**  Whatever threads and timeout functions do with the timers, as long as those that start
during the check have some ticks to go, each goes off at the very tick that it was started for (the next one, if a
thread asked for none), in the order of the ticks asked for, and in the order of the starts where they are the same;
and the clock may wrap around. -/
theorem timers_exact {rtTick : UInt32} {timer : ι → Timer} {acts : List (TimerAct ι)}
    (hacts : Guarded TimerSystem.step TimerSystem.Timely (TimerSystem.init rtTick timer) acts)
    (h : run TimerSystem.step acts (TimerSystem.init rtTick timer) = some s) :
    ∃ a, run Service.step s.log ⟨rtTick.toNat, []⟩ = some a ∧ s.rtTick = .ofNat a.now ∧
      s.rtTimerList = a.pending.map Alarm.id ∧ (s.phase = .thread → ∀ b ∈ a.pending, a.now < b.due) := by
  obtain ⟨a, hs⟩ := run_synced hacts h
  refine ⟨a, hs.history, hs.tick, hs.list, fun hp b hb => ?_⟩
  have hdue := hs.due b hb
  rw [hp] at hdue
  have hdue : b.due = max b.key (a.now + 1) := hdue
  omega

/-- A timer that runs for two ticks, and one that is called at each. -/
def twoTimers : Bool → Timer
  | false => ⟨0, 2, false, false⟩
  | true => ⟨0, 1, false, true⟩

/-- The clock wraps around, and both timers are called. -/
def wrapAround : List (TimerAct Bool) :=
  [.start false, .start true, .tick, .next, .ret, .next, .tick, .next, .ret, .next, .ret, .next]

theorem timers_exact_wrapAround : ∃ s a, run TimerSystem.step wrapAround
    (TimerSystem.init 0xfffffffe twoTimers) = some s ∧
    s.log = [.started false 2, .started true 1, .tick, .fired true, .started true 1, .tick, .fired false, .fired true,
      .started true 1] ∧ run Service.step s.log ⟨4294967294, []⟩ = some a ∧ s.rtTick = 0 ∧ a.now = 4294967296 := by
  have hsome : ∃ s ∈ run TimerSystem.step wrapAround (TimerSystem.init 0xfffffffe twoTimers),
      s.log = [.started false 2, .started true 1, .tick, .fired true, .started true 1, .tick, .fired false, .fired true,
        .started true 1] ∧ s.rtTick = 0 := by decide
  obtain ⟨s, hs, hlog, htick⟩ := hsome
  obtain ⟨a, ha, -, -, -⟩ := timers_exact (by decide) hs
  have hnow : ∀ b ∈ run Service.step s.log ⟨4294967294, []⟩, b.now = 4294967296 := by
    rw [hlog]
    decide
  exact ⟨s, a, hs, hlog, ha, htick, hnow a ha⟩

end

end DataRecorder.Kernel
