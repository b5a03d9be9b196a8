/-
  Runs with timers.

  * `check_ends`: between two ticks, the list is looked at once for each timer that was
    on it, and once more;
  * `periodic_exact`: a periodic timer that is left alone goes off at every multiple of
    its period, and at no other tick.
-/
import DataRecorder.Kernel.TimerExact

namespace DataRecorder.Kernel

open Base TimerSystem

/-- The timer that a call is about. -/
def TimerAct.target {ι : Type*} : TimerAct ι → Option ι
  | .start t | .stop t | .detach t | .control t _ => some t
  | .tick | .next | .ret => none

variable {ι : Type*} [DecidableEq ι] {t₀ : ℕ} {s s' : TimerSystem ι} {a a' : Service ι} {act : TimerAct ι} {i t : ι}
  {es : List (Notice ι)}

theorem Synced.run (hs : Synced t₀ s a) (hs' : Synced t₀ s' a') (hl : s'.log = s.log ++ es) :
    Base.run Service.step es a = some a' := by
  have hhistory := hs'.history
  rwa [hl, run_append, hs.history, Option.bind_some] at hhistory

/-! ## What is noted of a step -/

/-- Nothing happened that the clock or the timer `i` would notice. -/
def Apart (i : ι) (e : Notice ι) : Prop := (∀ n, e ≠ .started i n) ∧ e ≠ .stopped i ∧ e ≠ .fired i

/-- A step leaves the timer `i` as it is. -/
structure Left (s s' : TimerSystem ι) (i : ι) : Prop where
  timer : s'.timer i = s.timer i
  phase : s'.phase = .call i ↔ s.phase = .call i
  list : s.phase = .call i → s.list = [] ∨ s.list = [i] → s'.list = s.list
  log : s'.log = s.log ∨ ∃ e, s'.log = s.log ++ [e] ∧ Apart i e ∧ (e = .tick → s.phase = .thread)

theorem filter_list {l : List ι} (hl : l = [] ∨ l = [i]) (ht : t ≠ i) : l.filter (· ≠ t) = l := by
  rcases hl with rfl | rfl
  · rfl
  · simp [ht.symm]

theorem left_start (h : s.rtTimerStart t = some s') (ht : t ≠ i) : Left s s' i := by
  obtain ⟨-, rfl⟩ := rtTimerStart_some h
  refine ⟨set_timer_of_ne _ _ ht.symm, Iff.rfl, fun _ hl => filter_list hl ht,
    Or.inr ⟨_, rfl, ⟨?_, by simp, by simp⟩, by simp⟩⟩
  intro n he
  exact ht (Notice.started.inj he).1

theorem left_set {x : Timer} (ht : t ≠ i) : Left s (s.set t x) i :=
  ⟨set_timer_of_ne _ _ ht.symm, Iff.rfl, fun _ _ => rfl, Or.inl rfl⟩

theorem left_detach (ht : t ≠ i) : Left s (s.rtTimerDetach t) i := by
  refine ⟨set_timer_of_ne _ _ ht.symm, Iff.rfl, fun _ hl => filter_list hl ht,
    Or.inr ⟨_, rfl, ⟨by simp, ?_, by simp⟩, by simp⟩⟩
  intro he
  exact ht (Notice.stopped.inj he)

theorem left_next (hs : Synced t₀ s a) (hp : s.phase = .check) : Left s s.checkNext i ∨
    ∃ b l, a.pending = b :: l ∧ b.id = i ∧ b.due = a.now ∧ s.checkNext = s.expire i ∧
      Synced t₀ s.checkNext { a with pending := l } := by
  have hcall : s.phase ≠ .call i := by
    rw [hp]
    simp
  rcases hs.checkNext hp with ⟨b, l, ha, hdue, hnext, hs'⟩ | ⟨hnext, -⟩
  · by_cases hb : b.id = i
    · exact Or.inr ⟨b, l, ha, hb, hdue, hb ▸ hnext, hs'⟩
    · obtain ⟨-, -, -, hphase, hlog, htimer⟩ := expire_fields s b.id
      rw [hnext]
      refine Or.inl ⟨?_, ?_, fun hc => absurd hc hcall, Or.inr ⟨_, hlog, ⟨by simp, by simp, ?_⟩, by simp⟩⟩
      · rw [htimer, Function.update_of_ne (Ne.symm hb)]
      · rw [hphase, hp]
        simp [hb]
      · intro he
        exact hb (Notice.fired.inj he)
  · rw [hnext]
    refine Or.inl ⟨rfl, ?_, fun hc => absurd hc hcall, Or.inl rfl⟩
    rw [hp]
    simp

theorem left_ret (hp : s.phase = .call t) (h : s.checkRet t = some s') (ht : t ≠ i) :
    Left s s' i := by
  have hcall : s.phase ≠ .call i := by
    rw [hp]
    simp [ht]
  have hphase {u : TimerSystem ι} (hu : u.phase = .check) : u.phase = .call i ↔ s.phase = .call i := by
    rw [hu, hp]
    simp [ht]
  simp only [TimerSystem.checkRet] at h
  split_ifs at h
  · cases h
    exact ⟨rfl, hphase rfl, fun hc => absurd hc hcall, Or.inl rfl⟩
  · have hstart := left_start h ht
    refine ⟨?_, ?_, fun hc => absurd hc hcall, ?_⟩
    · rw [hstart.timer, set_timer_of_ne _ _ ht.symm]
    · rw [hstart.phase]
      exact hphase rfl
    · rcases hstart.log with hlog | ⟨e, hlog, he, htick⟩
      · exact Or.inl hlog
      · refine Or.inr ⟨e, hlog, he, fun h => ?_⟩
        cases htick h
  · cases h
    exact ⟨rfl, hphase rfl, fun hc => absurd hc hcall, Or.inl rfl⟩

/-- **A step that is not about a timer** leaves it as it is, or calls it, or returns from it. -/
theorem step_left (hs : Synced t₀ s a) (h : TimerSystem.step act s = some s') (hact : act.target ≠ some i) :
    Left s s' i ∨ (s.phase = .check ∧ ∃ b l, a.pending = b :: l ∧ b.id = i ∧ b.due = a.now ∧ s' = s.expire i ∧
      Synced t₀ s' { a with pending := l }) ∨ (s.phase = .call i ∧ act = .ret ∧ s.checkRet i = some s') := by
  have hne {t : ι} (ht : act.target = some t) : t ≠ i := by
    rintro rfl
    exact hact ht
  cases act with
  | start t =>
    simp only [TimerSystem.step] at h
    split_ifs at h
    exact Or.inl (left_start h (hne rfl))
  | stop t =>
    simp only [TimerSystem.step] at h
    split_ifs at h
    cases h
    unfold rtTimerStop
    split_ifs
    · exact Or.inl (left_detach (hne rfl))
    · exact Or.inl ⟨rfl, Iff.rfl, fun _ _ => rfl, Or.inl rfl⟩
  | detach t =>
    simp only [TimerSystem.step] at h
    split_ifs at h
    cases h
    exact Or.inl (left_detach (hne rfl))
  | control t cmd =>
    simp only [TimerSystem.step] at h
    split_ifs at h
    cases h
    cases cmd with
    | getTime | getState => exact Or.inl ⟨rfl, Iff.rfl, fun _ _ => rfl, Or.inl rfl⟩
    | setTime tick => exact Or.inl (left_set (hne rfl))
    | setOneshot | setPeriodic => exact Or.inl (left_set (hne rfl))
  | tick =>
    simp only [TimerSystem.step] at h
    split_ifs at h with hp
    cases h
    refine Or.inl ⟨rfl, ?_, fun _ _ => rfl, Or.inr ⟨_, rfl, ⟨by simp, by simp, by simp⟩, fun _ => hp⟩⟩
    show Phase.check = .call i ↔ _
    rw [hp]
    simp
  | next =>
    simp only [TimerSystem.step] at h
    split_ifs at h with hp
    cases h
    rcases left_next hs hp with hl | ⟨b, l, hrest⟩
    · exact Or.inl hl
    · exact Or.inr (Or.inl ⟨hp, b, l, hrest⟩)
  | ret =>
    cases hp : s.phase with
    | call t =>
      simp only [TimerSystem.step, hp] at h
      by_cases hti : t = i
      · subst hti
        exact Or.inr (Or.inr ⟨rfl, rfl, h⟩)
      · exact Or.inl (left_ret hp h hti)
    | thread | check =>
      simp only [TimerSystem.step, hp] at h
      cases h

/-! ## A periodic timer -/

/-- The timer `i` has run since the tick `t₁`, was called `c` times, and is on the list again (its timeout function
may have started it) or about to return. -/
structure Ticking (i : ι) (n t₁ c : ℕ) (s : TimerSystem ι) (a : Service ι) : Prop where
  period : (s.timer i).initTick.toNat = n
  flags : (s.timer i).periodic = true ∧ (s.timer i).activated = true
  since : t₁ + c * n ≤ a.now
  next : (s.phase = .call i → s.list = []) ∧ (∃ b ∈ a.pending, b.id = i ∧ b.due = t₁ + (c + 1) * n) ∨
    s.phase = .call i ∧ s.list = [i] ∧ a.now = t₁ + c * n

variable {n t₁ c : ℕ}

/-- Its calls came at the multiples of the period. -/
def Called (i : ι) (n t₁ c : ℕ) (es : List (Notice ι)) (a : Service ι) : Prop :=
  a.now = t₁ + es.count .tick ∧ fires i 0 es = (List.range c).map fun k => (k + 1) * n

theorem Called.quiet {e : Notice ι} (hc : Called i n t₁ c es a) (h : a.step e = some a') (he : e ≠ .fired i) :
    Called i n t₁ c (es ++ [e]) a' := by
  obtain ⟨hnow, hfires⟩ := hc
  constructor
  · rw [now_step h, hnow, List.count_append]
    simp only [List.count_singleton, beq_iff_eq]
    omega
  · rw [fires_append, hfires]
    have hnone : fires i (0 + es.count .tick) [e] = [] := by
      cases e with
      | tick | started | stopped => rfl
      | fired j =>
        have hj : j ≠ i := fun h => he (h ▸ rfl)
        simp [fires, hj]
    rw [hnone, List.append_nil]

omit [DecidableEq ι] in
theorem Ticking.left (ht : Ticking i n t₁ c s a) (hl : Left s s' i)
    (ha : a'.now = a.now ∨ a.now ≤ a'.now ∧ s.phase ≠ .call i)
    (hkeep : ∀ b ∈ a.pending, b.id = i → b ∈ a'.pending) : Ticking i n t₁ c s' a' := by
  obtain ⟨hperiod, hflags, hsince, hnext⟩ := ht
  refine ⟨hl.timer ▸ hperiod, hl.timer ▸ hflags, by omega, ?_⟩
  rcases hnext with ⟨hp, b, hb, hid, hdue⟩ | ⟨hp, hlist, hnow⟩
  · refine Or.inl ⟨fun hcall => ?_, b, hkeep b hb hid, hid, hdue⟩
    have hcall := hl.phase.1 hcall
    rw [hl.list hcall (Or.inl (hp hcall)), hp hcall]
  · refine Or.inr ⟨hl.phase.2 hp, (hl.list hp (Or.inr hlist)).trans hlist, ?_⟩
    rcases ha with ha | ha
    · rw [ha, hnow]
    · exact absurd hp ha.2

theorem ticking_left (hs : Synced t₀ s a) (hs' : Synced t₀ s' a') (ht : Ticking i n t₁ c s a)
    (hc : Called i n t₁ c es a) (hl : Left s s' i) :
    ∃ es', s'.log = s.log ++ es' ∧ Called i n t₁ c (es ++ es') a' ∧ Ticking i n t₁ c s' a' := by
  rcases hl.log with hlog | ⟨e, hlog, hapart, htick⟩
  · have hlog : s'.log = s.log ++ [] := by rw [hlog, List.append_nil]
    obtain rfl : a = a' := Option.some.inj (hs.run hs' hlog)
    refine ⟨[], hlog, ?_, ht.left hl (Or.inl rfl) fun b hb _ => hb⟩
    rwa [List.append_nil]
  · have hstep : a.step e = some a' := run_one (hs.run hs' hlog)
    refine ⟨[e], hlog, hc.quiet hstep hapart.2.2, ht.left hl ?_ fun b hb hid => ?_⟩
    · rw [now_step hstep]
      split_ifs with he
      · refine Or.inr ⟨Nat.le_succ _, ?_⟩
        rw [htick he]
        simp
      · exact Or.inl rfl
    · subst hid
      exact mem_step hstep hb hapart.1 hapart.2.1 hapart.2.2

theorem ticking_expire {b : Alarm ι} {l : List (Alarm ι)} (hs : Synced t₀ s a) (ht : Ticking i n t₁ c s a)
    (hc : Called i n t₁ c es a) (hp : s.phase = .check) (ha : a.pending = b :: l) (hb : b.id = i)
    (hdue : b.due = a.now) :
    Called i n t₁ (c + 1) (es ++ [.fired i]) { a with pending := l } ∧
      Ticking i n t₁ (c + 1) (s.expire i) { a with pending := l } := by
  obtain ⟨hperiod, hflags, -, hnext⟩ := ht
  have hlist : s.list = [] := by
    rcases hs.call with hl | ⟨t, hcall, -⟩
    · exact hl
    · rw [hp] at hcall
      cases hcall
  have hnow : a.now = t₁ + (c + 1) * n := by
    rcases hnext with ⟨-, b', hb', hid, hdue'⟩ | ⟨hcall, -, -⟩
    · rw [ha] at hb'
      rcases List.mem_cons.1 hb' with rfl | hb'
      · rw [← hdue, hdue']
      · have hnodup := hs.nodup
        rw [hs.list, ha, List.map_cons, List.nodup_cons] at hnodup
        exact absurd (List.mem_map.2 ⟨b', hb', hid.trans hb.symm⟩) hnodup.1
    · rw [hp] at hcall
      cases hcall
  obtain ⟨hclock, hfires⟩ := hc
  have hcount : es.count .tick = (c + 1) * n := by omega
  obtain ⟨-, -, htemp, hphase, -, htimer⟩ := expire_fields s i
  refine ⟨⟨?_, ?_⟩, ?_, ?_, Nat.le_of_eq hnow.symm, Or.inr ⟨hphase, ?_, hnow⟩⟩
  · rw [List.count_append]
    simpa using hclock
  · rw [fires_append, hfires, List.range_succ, List.map_append, hcount]
    simp [fires]
  · rw [htimer, Function.update_self]
    exact hperiod
  · rw [htimer, Function.update_self]
    exact ⟨hflags.1, by simp [hflags]⟩
  · rw [htemp, hlist]
    rfl

/-- The timer is started at a multiple of its period. -/
theorem ticking_start (hs : Synced t₀ s a) (hperiod : (s.timer i).initTick.toNat = n) (hn : 0 < n)
    (hperiodic : (s.timer i).periodic = true) (hnow : a.now = t₁ + c * n)
    (h : s.rtTimerStart i = some s') : ∃ a', Synced t₀ s' a' ∧ s'.log = s.log ++ [.started i n] ∧
      a.step (.started i n) = some a' ∧ Ticking i n t₁ c s' a' := by
  have hpos : 0 < (s.timer i).initTick := by
    rw [UInt32.lt_iff_toNat_lt, hperiod]
    exact hn
  have hs' := hs.start (Or.inr hpos) h
  rw [hperiod] at hs'
  obtain ⟨-, rfl⟩ := rtTimerStart_some h
  refine ⟨_, hs', ?_, rfl, ?_, ?_, Nat.le_of_eq hnow.symm, Or.inl ⟨hs.filter_list, ⟨i, a.now + n, a.now + max n 1⟩,
    mem_enter.2 (Or.inl rfl), rfl, ?_⟩⟩
  · show s.log ++ [.started i (s.timer i).initTick.toNat] = _
    rw [hperiod]
  · show ((s.set i _).timer i).initTick.toNat = n
    rw [set_timer_self]
    exact hperiod
  · show ((s.set i _).timer i).periodic = true ∧ ((s.set i _).timer i).activated = true
    rw [set_timer_self]
    exact ⟨hperiodic, rfl⟩
  · show a.now + max n 1 = _
    rw [hnow, Nat.max_eq_left hn, Nat.add_mul]
    omega

theorem ticking_ret (hs : Synced t₀ s a) (ht : Ticking i n t₁ c s a) (hc : Called i n t₁ c es a) (hn : 0 < n)
    (hp : s.phase = .call i) (h : s.checkRet i = some s') : ∃ a' es', Synced t₀ s' a' ∧ s'.log = s.log ++ es' ∧
      Called i n t₁ c (es ++ es') a' ∧ Ticking i n t₁ c s' a' := by
  have hleave := hs.leave hp
  obtain ⟨hperiod, hflags, hsince, ⟨hnil, hnext⟩ | ⟨-, hlist, hnow⟩⟩ := ht
  · -- its timeout function started it
    have hnil := hnil hp
    rw [TimerSystem.checkRet, if_pos hnil] at h
    cases h
    rw [hnil, List.filter_nil] at hleave
    refine ⟨a, [], ?_, (List.append_nil _).symm, (List.append_nil es).symm ▸ hc, hperiod, hflags, hsince,
      Or.inl ⟨fun _ => hnil, hnext⟩⟩
    rwa [hnil]
  obtain ⟨s₁, hs₁⟩ : ∃ s₁ : TimerSystem ι, s₁ =
    TimerSystem.set { s with list := s.list.filter (· ≠ i), phase := .check } i { s.timer i with activated := false } :=
      ⟨_, rfl⟩
  have hset : Synced t₀ s₁ a := hs₁ ▸ hleave.set rfl
  have hstart : s₁.rtTimerStart i = some s' := by
    rw [hs₁]
    rw [TimerSystem.checkRet, if_neg (by simp [hlist])] at h
    exact (if_pos hflags).symm.trans h
  have htimer : s₁.timer i = { s.timer i with activated := false } := by rw [hs₁, set_timer_self]
  have hsame : s₁.log = s.log := by
    rw [hs₁]
    rfl
  obtain ⟨a', hs', hlog, hstep, ht'⟩ := ticking_start hset (by rw [htimer, hperiod]) hn (by rw [htimer]; exact hflags.1)
    hnow hstart
  rw [hsame] at hlog
  exact ⟨a', _, hs', hlog, hc.quiet hstep (by simp), ht'⟩

theorem ticking_step (hs : Synced t₀ s a) (ht : Ticking i n t₁ c s a) (hc : Called i n t₁ c es a) (hn : 0 < n)
    (htimely : s.Timely act) (hact : act.target ≠ some i) (h : TimerSystem.step act s = some s') :
    ∃ a' es' c', Synced t₀ s' a' ∧ s'.log = s.log ++ es' ∧ Called i n t₁ c' (es ++ es') a' ∧
      Ticking i n t₁ c' s' a' := by
  rcases step_left hs h hact with hl | ⟨hp, b, l, ha, hb, hdue, rfl, hs'⟩ | ⟨hp, -, hret⟩
  · obtain ⟨a', hs'⟩ := step_synced hs htimely h
    obtain ⟨es', hlog, hc', ht'⟩ := ticking_left hs hs' ht hc hl
    exact ⟨a', es', c, hs', hlog, hc', ht'⟩
  · obtain ⟨hc', ht'⟩ := ticking_expire hs ht hc hp ha hb hdue
    obtain ⟨-, -, -, -, hlog, -⟩ := expire_fields s i
    exact ⟨_, _, c + 1, hs', hlog, hc', ht'⟩
  · obtain ⟨a', es', hs', hlog, hc', ht'⟩ := ticking_ret hs ht hc hn hp hret
    exact ⟨a', es', c, hs', hlog, hc', ht'⟩

/-- **Periodic timers do not drift.**  A periodic timer that is started, in a thread or in a timeout function, and then
left alone is called at every multiple of its period, and at no other tick. -/
theorem periodic_exact {rtTick : UInt32} {timer : ι → Timer} {acts more : List (TimerAct ι)} {s₁ s₂ : TimerSystem ι}
    (hacts : Guarded TimerSystem.step TimerSystem.Timely (TimerSystem.init rtTick timer) acts)
    (h : run TimerSystem.step acts (TimerSystem.init rtTick timer) = some s) (hperiodic : (s.timer i).periodic = true)
    (hn : 0 < (s.timer i).initTick) (hstart : TimerSystem.step (.start i) s = some s₁)
    (hmore : Guarded TimerSystem.step (fun s act => s.Timely act ∧ act.target ≠ some i) s₁ more)
    (h₂ : run TimerSystem.step more s₁ = some s₂) (hp₂ : s₂.phase = .thread) : ∃ es, s₂.log = s₁.log ++ es ∧
      fires i 0 es = (List.range (es.count .tick / (s.timer i).initTick.toNat)).map
        fun k => (k + 1) * (s.timer i).initTick.toNat := by
  obtain ⟨a, hs⟩ := run_synced hacts h
  have hpos : 0 < (s.timer i).initTick.toNat := by rwa [UInt32.lt_iff_toNat_lt, UInt32.toNat_zero] at hn
  generalize hperiod : (s.timer i).initTick.toNat = n at *
  simp only [TimerSystem.step] at hstart
  split_ifs at hstart
  obtain ⟨a₁, hs₁, -, hstep, ht₁⟩ := ticking_start hs hperiod hpos hperiodic
    (show a.now = a.now + 0 * n by omega) hstart
  have hc₁ : Called i n a.now 0 [] a₁ := ⟨by rw [now_step hstep]; simp, rfl⟩
  obtain ⟨a₂, es, c, hs₂, hlog, ⟨hclock, hfires⟩, ht₂⟩ : ∃ a' es c, Synced rtTick.toNat s₂ a' ∧ s₂.log = s₁.log ++ es ∧
      Called i n a.now c es a' ∧ Ticking i n a.now c s₂ a' := by
    refine hmore.run_inv (I := fun s => ∃ a' es c, Synced rtTick.toNat s a' ∧ s.log = s₁.log ++ es ∧
      Called i n a.now c es a' ∧ Ticking i n a.now c s a') ?_ ⟨a₁, [], 0, hs₁, by rw [List.append_nil], hc₁, ht₁⟩ h₂
    rintro s act s' ⟨a', es, c, hs, hlog, hc, ht⟩ hact hs'
    obtain ⟨a'', es', c', hs'', hlog', hc', ht'⟩ := ticking_step hs ht hc hpos hact.1 hact.2 hs'
    exact ⟨a'', es ++ es', c', hs'', by rw [hlog', hlog, List.append_assoc], hc', ht'⟩
  refine ⟨es, hlog, ?_⟩
  -- the next call is still to come
  have hnext : a₂.now < a.now + (c + 1) * n := by
    rcases ht₂.next with ⟨-, b, hb, -, hdue⟩ | ⟨hcall, -, -⟩
    · have hdue' := hs₂.due b hb
      rw [hp₂] at hdue'
      have hdue' : b.due = max b.key (a₂.now + 1) := hdue'
      omega
    · rw [hp₂] at hcall
      cases hcall
  have hsince := ht₂.since
  have hcount : es.count .tick / n = c :=
    Nat.div_eq_of_lt_le (by omega) (by omega)
  rw [hcount, hfires]

/-- The timer that is called at each tick is stopped and started by the timeout function of the other. -/
def startedInside : List (TimerAct Bool) :=
  [.start false, .start true, .tick, .next, .ret, .next, .tick, .next, .stop true]

theorem periodic_exact_startedInside : ∃ s s₁ s₂ : TimerSystem Bool,
    run TimerSystem.step startedInside (TimerSystem.init 0xfffffffe twoTimers) = some s ∧ s.phase = .call false ∧
      TimerSystem.step (.start true) s = some s₁ ∧
      run TimerSystem.step [.ret, .next, .tick, .next, .ret, .next, .start false, .tick, .next, .ret, .next] s₁ =
        some s₂ ∧
      ∃ es, s₂.log = s₁.log ++ es ∧ fires true 0 es = [1, 2] := by
  have hsome : ∃ s ∈ run TimerSystem.step startedInside (TimerSystem.init 0xfffffffe twoTimers), s.phase = .call false ∧
      (s.timer true).periodic = true ∧ (s.timer true).initTick = 1 ∧ ∃ s₁ ∈ TimerSystem.step (.start true) s,
        Guarded TimerSystem.step (fun s act => s.Timely act ∧ act.target ≠ some true) s₁
            [.ret, .next, .tick, .next, .ret, .next, .start false, .tick, .next, .ret, .next] ∧
          ∃ s₂ ∈ run TimerSystem.step
            [.ret, .next, .tick, .next, .ret, .next, .start false, .tick, .next, .ret, .next] s₁,
            s₂.phase = .thread ∧ (s₂.log.drop s₁.log.length).count .tick = 2 := by decide
  obtain ⟨s, hs, hcall, hperiodic, hinit, s₁, hstart, hmore, s₂, h₂, hp₂, hcount⟩ := hsome
  obtain ⟨es, hes, hfires⟩ := periodic_exact (by decide) hs hperiodic (by rw [hinit]; decide) hstart hmore h₂ hp₂
  have hdrop : s₂.log.drop s₁.log.length = es := by rw [hes, List.drop_left]
  rw [hdrop] at hcount
  rw [hcount, hinit] at hfires
  exact ⟨s, s₁, s₂, hs, hcall, hstart, h₂, es, hes, hfires⟩

/-! ## The end of the check -/

/-- A step other than those of the interrupt notes one thing at most. -/
theorem step_quiet (h : TimerSystem.step act s = some s') (htick : act ≠ .tick) (hnext : act ≠ .next) :
    s'.phase.lag = s.phase.lag ∧ (s'.log = s.log ∨ ∃ e, s'.log = s.log ++ [e] ∧ e ≠ .tick) := by
  have hstart {s s' : TimerSystem ι} {t : ι} (h : s.rtTimerStart t = some s') :
      s'.phase.lag = s.phase.lag ∧ (s'.log = s.log ∨ ∃ e, s'.log = s.log ++ [e] ∧ e ≠ .tick) := by
    obtain ⟨-, rfl⟩ := rtTimerStart_some h
    exact ⟨rfl, Or.inr ⟨_, rfl, by simp⟩⟩
  cases act with
  | start t =>
    simp only [TimerSystem.step] at h
    split_ifs at h
    exact hstart h
  | stop t =>
    simp only [TimerSystem.step] at h
    split_ifs at h
    cases h
    unfold rtTimerStop
    split_ifs
    · exact ⟨rfl, Or.inr ⟨_, rfl, by simp⟩⟩
    · exact ⟨rfl, Or.inl rfl⟩
  | detach t =>
    simp only [TimerSystem.step] at h
    split_ifs at h
    cases h
    exact ⟨rfl, Or.inr ⟨_, rfl, by simp⟩⟩
  | control t cmd =>
    simp only [TimerSystem.step] at h
    split_ifs at h
    cases h
    cases cmd <;> exact ⟨rfl, Or.inl rfl⟩
  | tick => exact absurd rfl htick
  | next => exact absurd rfl hnext
  | ret =>
    cases hp : s.phase with
    | call t =>
      simp only [TimerSystem.step, hp, TimerSystem.checkRet] at h
      split_ifs at h
      · cases h
        exact ⟨rfl, Or.inl rfl⟩
      · exact hstart h
      · cases h
        exact ⟨rfl, Or.inl rfl⟩
    | thread | check =>
      simp only [TimerSystem.step, hp] at h
      cases h

/-- Each look at the list leaves fewer timers that are due, or ends the check. -/
theorem potential_step (hs : Synced t₀ s a) (hs' : Synced t₀ s' a') (h : TimerSystem.step act s = some s')
    (htick : act ≠ .tick) :
    (if act = .next then 1 else 0) + (overdue a' + s'.phase.lag) ≤ overdue a + s.phase.lag := by
  by_cases hnext : act = .next
  · subst hnext
    simp only [TimerSystem.step] at h
    split_ifs at h with hp
    cases h
    rw [if_pos rfl, hp]
    rcases hs.checkNext hp with ⟨b, l, -, -, hnext, -⟩ | ⟨hnext, -⟩
    · obtain ⟨-, -, -, hphase, hlog, -⟩ := expire_fields s b.id
      rw [hnext] at hs' ⊢
      have hstep := overdue_step (run_one (hs.run hs' hlog)) (by simp)
      rw [hphase]
      show 1 + (overdue a' + 1) ≤ overdue a + 1
      have hstep : 1 + overdue a' ≤ overdue a := hstep
      omega
    · rw [hnext] at hs' ⊢
      obtain rfl : a = a' := Option.some.inj (hs.run hs' (List.append_nil _).symm)
      show 1 + (overdue a + 0) ≤ overdue a + 1
      omega
  · obtain ⟨hlag, hlog | ⟨e, hlog, he⟩⟩ := step_quiet h htick hnext
    · rw [← List.append_nil s.log] at hlog
      obtain rfl : a = a' := Option.some.inj (hs.run hs' hlog)
      rw [if_neg hnext, hlag, Nat.zero_add]
    · have hstep := overdue_step (run_one (hs.run hs' hlog)) he
      rw [if_neg hnext, hlag, Nat.zero_add]
      omega

theorem potential_run {acts : List (TimerAct ι)} (hs : Synced t₀ s a)
    (hacts : Guarded TimerSystem.step TimerSystem.Timely s acts)
    (h : run TimerSystem.step acts s = some s') (hno : TimerAct.tick ∉ acts) :
    acts.count .next ≤ overdue a + s.phase.lag := by
  induction acts generalizing s a with
  | nil => exact Nat.zero_le _
  | cons act acts ih =>
    obtain ⟨s₁, hstep, hrun⟩ := run_cons_some.1 h
    obtain ⟨a₁, hs₁⟩ := step_synced hs hacts.1 hstep
    rw [List.mem_cons, not_or] at hno
    have hpot := potential_step hs hs₁ hstep (Ne.symm hno.1)
    have hrest := ih hs₁ (hacts.2 s₁ hstep) hrun hno.2
    rw [List.count_cons]
    simp only [beq_iff_eq]
    omega

/-- **The check ends.**  Whatever the timeout functions do, the list is looked at no more often than once for each
timer that was on it, and once more. -/
theorem check_ends {rtTick : UInt32} {timer : ι → Timer} {acts more : List (TimerAct ι)}
    (hacts : Guarded TimerSystem.step TimerSystem.Timely (TimerSystem.init rtTick timer) acts)
    (h : run TimerSystem.step acts (TimerSystem.init rtTick timer) = some s)
    (hmore : Guarded TimerSystem.step TimerSystem.Timely s more)
    (h' : run TimerSystem.step more s = some s') (hno : TimerAct.tick ∉ more) :
    more.count .next ≤ s.rtTimerList.length + 1 := by
  obtain ⟨a, hs⟩ := run_synced hacts h
  have hrun := potential_run hs hmore h' hno
  have hlag := s.phase.lag_le
  have hdue : overdue a ≤ s.rtTimerList.length := by
    rw [hs.list, List.length_map]
    exact List.countP_le_length
  omega

theorem check_ends_atOnce : ∃ s : TimerSystem Bool, run TimerSystem.step [.start true, .tick]
    (TimerSystem.init 5 twoTimers) = some s ∧
    [TimerAct.next, .ret, .next].count (.next : TimerAct Bool) ≤ s.rtTimerList.length + 1 := by
  have hsome : ∃ s ∈ run TimerSystem.step [.start true, .tick] (TimerSystem.init 5 twoTimers),
      Guarded TimerSystem.step TimerSystem.Timely s [.next, .ret, .next] ∧
      (run TimerSystem.step [.next, .ret, .next] s).isSome := by decide
  obtain ⟨s, hs, hmore, hrun⟩ := hsome
  obtain ⟨s', hs'⟩ := Option.isSome_iff_exists.1 hrun
  exact ⟨s, hs, check_ends (by decide) hs hmore hs' (by decide)⟩

end DataRecorder.Kernel
