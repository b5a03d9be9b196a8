/-
  No callback on a deleted window.

  The four periodic tasks are tied to their windows in different ways: those of the
  gauge and of the clock are deleted by the callback that Back sends `USER_EVENT_BACK`
  to, that of the chart runs on but does nothing once Back has cleared the flag, and
  that of the header bar runs on with the labels of the newest bar, which is never
  deleted.

  * `shown_of_run`: after any run the screen is one of `AtLogin` and `AtMain`, with one
    header bar for each login;
  * `safe_of_run`: whatever happens in whatever order, no callback and no task uses a
    widget that has been deleted, and no two tasks of one kind are alive.
-/
import DataRecorder.Gui.Navigation

namespace DataRecorder.Gui

open Base

/-! ## Tasks -/

/-- The window whose widgets a task updates; `file_win.c` never creates its task. -/
def TaskKind.window : TaskKind → Option Kind
  | .header => some .header
  | .progress => some (.page .progress)
  | .chart => some (.page .chart)
  | .gauge => some (.page .gauge)
  | .file => none

/-- The pointers that the body of a task uses. -/
def App.touched (g : App) : TaskKind → List (Option Obj)
  | .header => [g.main.clockTime, g.main.cpuLoad]
  | .progress => [g.progress.arc1, g.progress.arc2, g.progress.arc3, g.progress.progressLabel]
  | .chart =>
    if g.chartFlag = 1 then [g.chart.series1, g.chart.series2, g.chart.chart1, g.chart.label1] else []
  | .gauge => [g.gauge.gauge1, g.gauge.label1]
  | .file => []

theorem App.deref_nil (g : App) : g.deref [] = g := by simp [App.deref]

theorem App.runTask_eq (g : App) (k : TaskKind) : g.runTask k = g.deref (g.touched k) := by
  cases k with
  | header | progress | gauge => rfl
  | chart =>
    rw [App.runTask, App.tempTask, App.touched]
    split_ifs
    · rfl
    · exact g.deref_nil.symm
  | file => exact g.deref_nil.symm

/-- The widgets that a live task updates are widgets of its window. -/
theorem Sound.touched {g : App} {top : Option (Page × ℕ)} {hs : List ℕ} (h : Sound g top hs)
    (hh : ∀ h ∈ hs, headerWindow h ∈ g.screen.windows)
    (hp : ∀ p, top = some p → pageWindow p ∈ g.screen.windows) {k : TaskKind}
    (hk : g.timers.handle k ≠ none) (hc : k = .chart → g.chartFlag = 1) :
    ∃ w ∈ g.screen.windows, some w.kind = k.window ∧ ∃ l : List ℕ,
      g.touched k = (l.map fun i => some ⟨w.serial, i⟩) ∧ ∀ i ∈ l, (w.find? i).isSome = true := by
  cases k with
  | header =>
    obtain ⟨t, ht, hclock, hload⟩ := h.header hk
    refine ⟨_, hh t ht, rfl, [2, 3], ?_, by simp [Window.find?, headerWindow, headerWidgets]⟩
    rw [App.touched, hclock, hload]
    rfl
  | progress =>
    obtain ⟨s, hs⟩ := h.progress hk
    refine ⟨_, hp _ hs, rfl, [4, 5, 6, 7], ?_, by
      simp [Window.find?, pageWindow, Page.widgets, Page.body]⟩
    rw [App.touched, show g.progress = progressVars s from h.points _ _ hs]
    rfl
  | chart =>
    obtain ⟨s, hs⟩ := h.chart (hc rfl)
    refine ⟨_, hp _ hs, rfl, [4, 4, 4, 5], ?_, by
      simp [Window.find?, pageWindow, Page.widgets, Page.body]⟩
    rw [App.touched, if_pos (hc rfl), show g.chart = chartVars s from h.points _ _ hs]
    rfl
  | gauge =>
    obtain ⟨s, hs⟩ := h.gauge hk
    refine ⟨_, hp _ hs, rfl, [4, 5], ?_, by
      simp [Window.find?, pageWindow, Page.widgets, Page.body]⟩
    rw [App.touched, show g.gauge = gaugeVars s from h.points _ _ hs]
    rfl
  | file => exact absurd h.file hk

/-- What is known of both screens. -/
theorem Shown.sound {n : ℕ} {g : App} (h : Shown n g) : ∃ top hs, Sound g top hs ∧
    (∀ t ∈ hs, headerWindow t ∈ g.screen.windows) ∧
    ∀ p, top = some p → pageWindow p ∈ g.screen.windows := by
  cases h with
  | @login _ s made kb hs h =>
    refine ⟨none, hs, h.sound, fun t ht => ?_, fun _ e => by cases e⟩
    rw [h.windows]
    exact List.mem_cons_of_mem _ (List.mem_map_of_mem ht)
  | @main _ pages t₀ m made mbox old h =>
    refine ⟨_, t₀ :: old, h.sound, fun t ht => ?_, fun p hp => ?_⟩
    · rw [h.windows]
      refine List.mem_append_right _ ?_
      rcases List.mem_cons.1 ht with rfl | ht
      · exact List.mem_cons_self
      · exact List.mem_cons_of_mem _ (List.mem_cons_of_mem _ (List.mem_map_of_mem ht))
    · rw [h.windows]
      exact List.mem_append_left _ (List.mem_map_of_mem (List.mem_of_head? hp))

theorem Shown.touched {n : ℕ} {g : App} (h : Shown n g) {t : ℕ × TaskKind} (ht : t ∈ g.timers.live)
    (hc : t.2 = .chart → g.chartFlag = 1) :
    ∃ w ∈ g.screen.windows, some w.kind = t.2.window ∧ ∃ l : List ℕ,
      g.touched t.2 = (l.map fun i => some ⟨w.serial, i⟩) ∧ ∀ i ∈ l, (w.find? i).isSome = true := by
  obtain ⟨top, hs, hsound, hh, hp⟩ := h.sound
  have hk : g.timers.handle t.2 ≠ none := by
    rw [hsound.timers.handle t ht]
    simp
  exact hsound.touched hh hp hk hc

/-- A live task leaves everything as it is, since what it uses is alive. -/
theorem Shown.runTask {n : ℕ} {g : App} (h : Shown n g) {t : ℕ × TaskKind} (ht : t ∈ g.timers.live) :
    g.runTask t.2 = g := by
  rw [App.runTask_eq]
  by_cases hc : t.2 = .chart → g.chartFlag = 1
  · obtain ⟨w, hw, -, l, hl, hfind⟩ := h.touched ht hc
    obtain ⟨top, hs, hsound, -⟩ := h.sound
    rw [hl]
    exact deref_window hsound.fresh hw hfind
  · push Not at hc
    rw [hc.1, App.touched, if_neg hc.2, App.deref_nil]

/-! ## Steps and runs -/

/-- Toasts and texts are of no account. -/
theorem Shown.texts {n : ℕ} {g : App} (h : Shown n g) (toasts : ℕ) (phone password : List Char) :
    Shown n { g with toasts := toasts, phone := phone, password := password } := by
  cases h with
  | login h => exact .login { h with sound := { h.sound with } }
  | main h => exact .main { h with sound := { h.sound with } }

/-- **Steps.** One step leads from a screen to a screen, and brings a header bar if it logs in. -/
theorem Shown.step {n : ℕ} {g g' : App} {a : Action} (h : Shown n g) (hs : step a g = some g') :
    Shown (n + if LogsIn g a then 1 else 0) g' := by
  cases a with
  | event o ev entries =>
    by_cases hev : ev = .back
    · rw [Gui.step, if_pos hev] at hs
      cases hs
    · rw [Gui.step, if_neg hev] at hs
      obtain ⟨cb, hit, rfl⟩ := Option.map_eq_some_iff.1 hs
      cases h with
      | login h => exact h.event ev entries hit
      | main h =>
        obtain ⟨hcb, h'⟩ := h.event hev entries hit
        have hno : ¬ LogsIn g (.event o ev entries) :=
          fun hl => hcb (Option.some.inj (hit.symm.trans hl.1))
        rwa [if_neg hno]
  | task i =>
    have hno : ¬ LogsIn g (.task i) := fun hl => hl
    obtain ⟨t, ht, rfl⟩ := Option.map_eq_some_iff.1 hs
    rw [if_neg hno, h.runTask (List.mem_of_find?_eq_some ht)]
    exact h
  | typed text =>
    have hno : ¬ LogsIn g (.typed text) := fun hl => hl
    rw [if_neg hno]
    rw [Gui.step] at hs
    split_ifs at hs <;> cases hs
    · exact h.texts g.toasts text g.password
    · exact h.texts g.toasts g.phone text
  | toastClosed =>
    have hno : ¬ LogsIn g .toastClosed := fun hl => hl
    rw [if_neg hno]
    rw [Gui.step] at hs
    split_ifs at hs
    cases hs
    exact h.texts (g.toasts - 1) g.phone g.password

/-- After power-up the screen is the login window. -/
theorem atLogin_guiAppStart : AtLogin guiAppStart 0 8 none [] where
  windows := rfl
  login := rfl
  quitMbox := rfl
  made := by simp
  sound :=
    { fresh := Screen.Fresh.place ⟨List.Pairwise.nil, by simp⟩
      timers := Timers.wellFormed_empty
      chart := fun h => by cases h
      gauge := fun h => absurd rfl h
      progress := fun h => absurd rfl h
      header := fun h => absurd rfl h
      file := rfl
      points := fun _ _ e => by cases e
      stray := rfl }

/-- **Runs.** The header bars are as many as the logins. -/
theorem shown_of_run {as : List Action} {g : App} (hr : run step as guiAppStart = some g) :
    Shown (tally step LogsIn guiAppStart as) g := by
  have h := run_tally (fun _ _ _ _ h hs => Shown.step h hs) (.login atLogin_guiAppStart) hr
  rwa [List.length_nil, Nat.zero_add] at h

/-- Every widget that the tasks use is alive, and so was every one used so far. -/
structure App.Safe (g : App) : Prop where
  stray : g.stray = []
  /-- a task runs only while its window exists, that of the chart if the flag is set -/
  window : ∀ t ∈ g.timers.live, (t.2 = .chart → g.chartFlag = 1) →
    ∃ w ∈ g.screen.windows, some w.kind = t.2.window ∧
      ∀ p ∈ g.touched t.2, ∃ o, p = some o ∧ o.win = w.serial ∧ g.screen.alive o = true
  /-- that of the chart uses nothing else -/
  idle : g.chartFlag ≠ 1 → g.touched .chart = []
  single : g.timers.live.Pairwise fun t u => t.2 ≠ u.2

theorem Shown.keepsSafe {n : ℕ} {g : App} (h : Shown n g) : g.Safe := by
  obtain ⟨top, hs, hsound, -⟩ := h.sound
  refine ⟨hsound.stray, fun t ht hc => ?_, fun hc => if_neg hc, hsound.timers.kinds⟩
  obtain ⟨w, hw, hk, l, hl, hfind⟩ := h.touched ht hc
  refine ⟨w, hw, hk, fun p hp => ?_⟩
  rw [hl] at hp
  obtain ⟨i, hi, rfl⟩ := List.mem_map.1 hp
  exact ⟨_, rfl, rfl, (hsound.fresh.alive hw i).trans (hfind i hi)⟩

/-- **No callback on a deleted window**, after any events, in any order. -/
theorem safe_of_run {as : List Action} {g : App} (hr : run step as guiAppStart = some g) : g.Safe :=
  (shown_of_run hr).keepsSafe

/-- Both texts are typed into the login window `s`, then its button is released. -/
def signIn (s : ℕ) : List Action :=
  [.event ⟨s, 4⟩ .released 0, .typed loginPhone, .event ⟨s, 5⟩ .released 0, .typed loginPassword,
    .event ⟨s, 6⟩ .released 0]

/-- The chart is opened and closed by a press that is dragged off Back, the gauge is opened; all
three tasks have run and are alive. -/
theorem safe_of_run_gauge : ∃ g, run step (signIn 0 ++
    [.task 0, .event ⟨1, 6⟩ .clicked 0, .task 1, .event ⟨3, 3⟩ .pressed 0, .task 1,
      .event ⟨3, 3⟩ .pressLost 0, .task 1, .event ⟨1, 7⟩ .clicked 0, .task 2, .task 1, .task 0])
      guiAppStart = some g ∧ g.timers.live.map (·.2) = [.gauge, .chart, .header] ∧ g.Safe := by
  obtain ⟨g, hr, hl⟩ := Option.map_eq_some_iff.1 (show (run step (signIn 0 ++
    [.task 0, .event ⟨1, 6⟩ .clicked 0, .task 1, .event ⟨3, 3⟩ .pressed 0, .task 1,
      .event ⟨3, 3⟩ .pressLost 0, .task 1, .event ⟨1, 7⟩ .clicked 0, .task 2, .task 1, .task 0])
      guiAppStart).map (·.timers.live.map (·.2)) = some [.gauge, .chart, .header] by decide +kernel)
  exact ⟨g, hr, hl, safe_of_run hr⟩

end DataRecorder.Gui
