/-
  What is on the screen in a run of the recorder's windows.

  `AtLogin` is the login screen, `AtMain` the main window with the pages opened over
  it; both with the header bars `hs` that the screen has, the newest first, since a
  header bar is never deleted.  `Sound` is what holds on either: the tasks of the
  gauge and of the clock, and the flag of the chart, belong to the page on top.

  * `AtLogin.event`, `AtMain.event`: one event leads from a screen of this kind to
    another, and brings a header bar if it logs in.
-/
import DataRecorder.Gui.Windows

namespace DataRecorder.Gui

open Base

/-! ## Windows -/

def loginWindow (s made : ℕ) (kb : Option ℕ) : Window Kind Callback :=
  ⟨s, .login, true, made, loginWidgets ++ kb.toList.map fun i => ⟨i, [1, 0], some .login⟩⟩

def mainWindow (m made : ℕ) (mbox : Option ℕ) : Window Kind Callback :=
  ⟨m, .main, true, made, mainWidgets ++ mbox.toList.map fun i => ⟨i, [10, 9, 0], some .main⟩⟩

def headerWindow (h : ℕ) : Window Kind Callback := ⟨h, .header, false, 4, headerWidgets⟩

def pageWindow (p : Page × ℕ) : Window Kind Callback :=
  ⟨p.2, .page p.1, true, p.1.widgets.length, p.1.widgets⟩

/-- The callback of the widgets of a page, Back apart. -/
def Page.owner : Page → Callback
  | .calendar => .calendar
  | .progress => .progress
  | .chart => .chart
  | .gauge => .gauge
  | .folder1 _ => .file
  | .folder2 _ => .file1
  | .text => .file2

def Page.folder : Page → Prop
  | .folder1 _ | .folder2 _ => True
  | _ => False

/-- The task that is started with the page. -/
def Page.task : Page → Option TaskKind
  | .progress => some .progress
  | .chart => some .chart
  | .gauge => some .gauge
  | _ => none

theorem Page.body_callback (p : Page) : ∀ x ∈ p.body, x.cb = none ∨ x.cb = some p.owner := by
  cases p with
  | calendar | progress | chart | gauge | text => decide
  | folder1 n | folder2 n => simp [Page.body, fileButtons, Page.owner]

theorem Page.callback {p : Page} {x : Widget Callback} {cb : Callback} (hx : x ∈ p.widgets)
    (hcb : x.cb = some cb) : cb = .back ∧ x.ix = 3 ∨ cb = p.owner := by
  rcases List.mem_append.1 hx with hx | hx
  · simp only [List.mem_cons, List.not_mem_nil, or_false] at hx
    rcases hx with rfl | rfl | rfl | rfl
    · cases p <;> simp_all [Page.cb, Page.owner]
    · cases hcb
    · cases hcb
    · exact .inl ⟨(Option.some.inj hcb).symm, rfl⟩
  · rcases p.body_callback x hx with h | h
    · cases h.symm.trans hcb
    · exact .inr (Option.some.inj (hcb.symm.trans h))

theorem login_callback {s made : ℕ} {kb : Option ℕ} {x : Widget Callback} {cb : Callback}
    (hx : x ∈ (loginWindow s made kb).widgets) (hcb : x.cb = some cb) :
    cb = .login ∧ (x.ix = 4 ∨ x.ix = 5 ∨ x.ix = 6 ∨ kb = some x.ix) := by
  simp only [loginWindow, loginWidgets, List.mem_append, List.mem_cons, List.mem_map,
    Option.mem_toList, List.not_mem_nil, or_false] at hx
  rcases hx with (rfl | rfl | rfl | rfl | rfl | rfl | rfl | rfl) | ⟨i, hi, rfl⟩ <;> simp_all

theorem main_callback {m made : ℕ} {mbox : Option ℕ} {x : Widget Callback} {cb : Callback}
    (hx : x ∈ (mainWindow m made mbox).widgets) (hcb : x.cb = some cb) :
    cb = .main ∧ (x.ix ∈ [4, 5, 6, 7, 8] ∨ x.ix = 13 ∨ mbox = some x.ix) := by
  simp only [mainWindow, mainWidgets, List.mem_append, List.mem_cons, List.mem_map,
    Option.mem_toList, List.not_mem_nil, or_false] at hx
  rcases hx with hx | ⟨i, hi, rfl⟩
  · rcases hx with rfl | rfl | rfl | rfl | rfl | rfl | rfl | rfl | rfl | rfl | rfl | rfl | rfl |
      rfl | rfl <;> simp_all
  · simp_all

/-! ## Screens -/

/-- The variables of the page `p` point into the window `s`. -/
def App.Points (g : App) : Page → ℕ → Prop
  | .calendar, s => g.calendar = calendarVars s
  | .progress, s => g.progress = progressVars s
  | .chart, s => g.chart = chartVars s
  | .gauge, s => g.gauge = gaugeVars s
  | _, _ => True

/-- The rollers of a page. -/
def App.rollers (g : App) : Page → List (Option Obj)
  | .calendar => g.calendar.dateRoller
  | .progress => g.progress.timeRoller
  | .chart => g.chart.temp
  | .gauge => g.gauge.humi
  | _ => []

/-- The page `top` is on top, and `hs` are the header bars. -/
structure Sound (g : App) (top : Option (Page × ℕ)) (hs : List ℕ) : Prop where
  fresh : g.screen.Fresh
  timers : g.timers.WellFormed
  chart : g.chartFlag = 1 → ∃ s, top = some (.chart, s)
  gauge : g.timers.handle .gauge ≠ none → ∃ s, top = some (.gauge, s)
  progress : g.timers.handle .progress ≠ none → ∃ s, top = some (.progress, s)
  header : g.timers.handle .header ≠ none →
    ∃ h ∈ hs, g.main.clockTime = some ⟨h, 2⟩ ∧ g.main.cpuLoad = some ⟨h, 3⟩
  file : g.timers.handle .file = none
  points : ∀ p s, top = some (p, s) → g.Points p s
  stray : g.stray = []

structure AtLogin (g : App) (s made : ℕ) (kb : Option ℕ) (hs : List ℕ) : Prop where
  windows : g.screen.windows = loginWindow s made kb :: hs.map headerWindow
  login : g.login = loginVars s (kb.map (⟨s, ·⟩))
  quitMbox : g.main.quitMbox = none
  /-- the keyboard is none of the widgets that the window began with -/
  made : 8 ≤ made ∧ ∀ i ∈ kb, 8 ≤ i
  sound : Sound g none hs

structure AtMain (g : App) (pages : List (Page × ℕ)) (h m made : ℕ) (mbox : Option ℕ)
    (old : List ℕ) : Prop where
  windows : g.screen.windows =
    pages.map pageWindow ++ headerWindow h :: mainWindow m made mbox :: old.map headerWindow
  main : g.main = mainVars m h (mbox.map (⟨m, ·⟩))
  kb : g.login.kb = none
  made : 15 ≤ made ∧ ∀ i ∈ mbox, 15 ≤ i
  folders : ∀ p ∈ pages.tail, p.1.folder
  sound : Sound g pages.head? (h :: old)

/-- The login screen or the main window, with `n` header bars. -/
inductive Shown : ℕ → App → Prop
  | login {g : App} {s made : ℕ} {kb : Option ℕ} {hs : List ℕ} (h : AtLogin g s made kb hs) :
    Shown hs.length g
  | main {g : App} {pages : List (Page × ℕ)} {h m made : ℕ} {mbox : Option ℕ} {old : List ℕ}
    (h : AtMain g pages h m made mbox old) : Shown (old.length + 1) g

/-- The step is a login: the login button is released over the right texts. -/
def LogsIn (g : App) : Action → Prop
  | .event obj ev _ => g.screen.hit obj = some .login ∧ some obj = g.login.loginBtn ∧
    ev = .released ∧ g.phone = loginPhone ∧ g.password = loginPassword
  | _ => False

instance (g : App) : ∀ a, Decidable (LogsIn g a)
  | .event .. => inferInstanceAs (Decidable (_ ∧ _ ∧ _ ∧ _ ∧ _))
  | .task _ | .typed _ | .toastClosed => .isFalse id

/-! ## Uses of live widgets -/

theorem deref_alive {g : App} {ps : List (Option Obj)}
    (h : ∀ p ∈ ps, ∃ o, p = some o ∧ g.screen.alive o = true) : g.deref ps = g := by
  have hnil : ps.filter (fun p => !p.any g.screen.alive) = [] := by
    rw [List.filter_eq_nil_iff]
    intro p hp
    obtain ⟨o, rfl, ho⟩ := h p hp
    simp [ho]
  rw [App.deref, hnil, List.append_nil]

/-- The widgets `l` of a window of the screen. -/
theorem deref_window {g : App} {w : Window Kind Callback} (hf : g.screen.Fresh)
    (hw : w ∈ g.screen.windows) {l : List ℕ} (hl : ∀ i ∈ l, (w.find? i).isSome = true) :
    g.deref (l.map fun i => some ⟨w.serial, i⟩) = g := by
  refine deref_alive fun p hp => ?_
  obtain ⟨i, hi, rfl⟩ := List.mem_map.1 hp
  exact ⟨_, rfl, (hf.alive hw i).trans (hl i hi)⟩

theorem del_window {g : App} {w : Window Kind Callback} (hf : g.screen.Fresh)
    (hw : w ∈ g.screen.windows) {i : ℕ} (hi : (w.find? i).isSome = true) :
    g.del (some ⟨w.serial, i⟩) = { g with screen := g.screen.del ⟨w.serial, i⟩ } := by
  have hd : g.deref [some ⟨w.serial, i⟩] = g := deref_window (l := [i]) hf hw (by simpa using hi)
  rw [App.del, hd]
  rfl

/-! ## The login screen -/

section
variable {g : App} {s made : ℕ} {kb : Option ℕ} {hs : List ℕ}

theorem AtLogin.mem (h : AtLogin g s made kb hs) : loginWindow s made kb ∈ g.screen.windows := by
  rw [h.windows]
  exact List.mem_cons_self

theorem loginWindow_kb {i : ℕ} (hi : 8 ≤ i) :
    (loginWindow s made (some i)).find? i = some ⟨i, [1, 0], some .login⟩ := by
  have hw : ∀ x ∈ loginWidgets, x.ix < 8 := by decide
  exact Window.find_last s Kind.login true made hw hi [1, 0] (some .login)

theorem loginWindow_add :
    (loginWindow s made none).add 1 (some .login) = loginWindow s (made + 1) (some made) := rfl

theorem loginWindow_del {i : ℕ} (hi : 8 ≤ i) :
    (loginWindow s made (some i)).del i = loginWindow s made none := by
  have hw : ∀ x ∈ loginWidgets, x.ix < 8 ∧ ∀ j ∈ x.parents, j < 8 := by decide
  exact Window.del_last s Kind.login true made hw hi [1, 0] (some .login)

theorem AtLogin.kbNew (h : AtLogin g s made none hs) : AtLogin g.kbNew s (made + 1) (some made) hs := by
  have hwin : g.login.loginWin = some ⟨s, 0⟩ := by rw [h.login]; rfl
  have hfresh : g.screen.fresh s = ⟨s, made⟩ := h.sound.fresh.fresh h.mem
  simp only [App.kbNew, hwin, Option.elim_some, hfresh]
  refine ⟨?_, ?_, h.quitMbox, ⟨Nat.le_succ_of_le h.made.1, by simpa using h.made.1⟩,
    { h.sound with fresh := h.sound.fresh.add }⟩
  · rw [← loginWindow_add]
    exact h.sound.fresh.add_widget (a := []) h.windows 1 (some .login)
  · simp [h.login, loginVars]

theorem AtLogin.kbCreate (h : AtLogin g s made kb hs) (o : Obj) :
    ∃ made' i, AtLogin (g.kbCreate o) s made' (some i) hs := by
  -- the keyboard that is shown afterwards
  have hshown : ∃ made' i, AtLogin (if g.login.kb = none then g.kbNew else g) s made' (some i) hs := by
    cases kb with
    | none =>
      have hkb : g.login.kb = none := by rw [h.login]; rfl
      exact ⟨_, _, by rw [if_pos hkb]; exact h.kbNew⟩
    | some i =>
      have hkb : g.login.kb ≠ none := by rw [h.login]; simp [loginVars]
      exact ⟨_, _, by rw [if_neg hkb]; exact h⟩
  obtain ⟨made', i, h'⟩ := hshown
  refine ⟨made', i, ?_⟩
  rw [App.kbCreate]
  generalize (if g.login.kb = none then g.kbNew else g) = g' at h'
  have hkb : g'.login.kb = some ⟨s, i⟩ := by rw [h'.login]; rfl
  have hd : g'.deref [some ⟨s, i⟩] = g' :=
    deref_window (l := [i]) h'.sound.fresh h'.mem (by simp [loginWindow_kb (h'.made.2 i rfl)])
  simp only [hkb, hd]
  exact { h' with sound := { h'.sound with } }

theorem AtLogin.kbDel {i : ℕ} (h : AtLogin g s made (some i) hs) : AtLogin g.kbDel s made none hs := by
  have hi : 8 ≤ i := h.made.2 i rfl
  have hkb : g.login.kb = some ⟨s, i⟩ := by rw [h.login]; rfl
  have hd : g.del (some ⟨s, i⟩) = { g with screen := g.screen.del ⟨s, i⟩ } :=
    del_window h.sound.fresh h.mem (by rw [loginWindow_kb hi]; rfl)
  rw [App.kbDel, hkb, hd]
  refine ⟨?_, ?_, h.quitMbox, ⟨h.made.1, by simp⟩, { h.sound with fresh := h.sound.fresh.del }⟩
  · have hw := h.sound.fresh.del_widget (a := []) h.windows (i := i) (by omega)
    rwa [loginWindow_del hi] at hw
  · simp [h.login, loginVars]

/-- A login: the login window is deleted, the main window and a header bar are created. -/
theorem AtLogin.enter (h : AtLogin g s made kb hs) :
    AtMain g.loginWinDel.mainWinCreate [] (g.screen.next + 1) g.screen.next 15 none hs := by
  have hwin : g.login.loginWin = some ⟨s, 0⟩ := by rw [h.login]; rfl
  have hd : g.del (some ⟨s, 0⟩) = { g with screen := g.screen.del ⟨s, 0⟩ } :=
    del_window h.sound.fresh h.mem rfl
  have hw : (g.screen.del ⟨s, 0⟩).windows = hs.map headerWindow :=
    h.sound.fresh.del_window (a := []) h.windows
  have e : g.loginWinDel.mainWinCreate = { g with
      screen := ((g.screen.del ⟨s, 0⟩).place .main true mainWidgets).place .header false headerWidgets
      login := { g.login with loginWin := none, kb := none }
      main := mainVars g.screen.next (g.screen.next + 1) g.main.quitMbox
      timers := g.timers.start .header } := by
    rw [App.loginWinDel, hwin, hd]
    rfl
  rw [e]
  refine ⟨?_, ?_, rfl, by simp, by simp, ?_⟩
  · simp only [Screen.place, hw]
    rfl
  · simp [h.quitMbox]
  · exact
      { fresh := h.sound.fresh.del.place.place
        timers := h.sound.timers.start
        chart := h.sound.chart
        gauge := fun hg => h.sound.gauge (by rwa [Timers.start_handle_ne (by simp)] at hg)
        progress := fun hp => h.sound.progress (by rwa [Timers.start_handle_ne (by simp)] at hp)
        header := fun _ => ⟨_, List.mem_cons_self, rfl, rfl⟩
        file := (Timers.start_handle_ne (by simp)).trans h.sound.file
        points := fun _ _ hp => by cases hp
        stray := h.sound.stray }

theorem AtLogin.phoneTa (h : AtLogin g s made kb hs) : g.login.phoneTa = some ⟨s, 4⟩ := by
  rw [h.login]; rfl

theorem AtLogin.passwordTa (h : AtLogin g s made kb hs) : g.login.passwordTa = some ⟨s, 5⟩ := by
  rw [h.login]; rfl

theorem AtLogin.loginBtn (h : AtLogin g s made kb hs) : g.login.loginBtn = some ⟨s, 6⟩ := by
  rw [h.login]; rfl

theorem AtLogin.kb_eq (h : AtLogin g s made kb hs) : g.login.kb = kb.map (⟨s, ·⟩) := by
  rw [h.login]; rfl

theorem AtLogin.deref_tas (h : AtLogin g s made kb hs) :
    g.deref [g.login.phoneTa, g.login.passwordTa] = g := by
  rw [h.phoneTa, h.passwordTa]
  exact deref_window (l := [4, 5]) h.sound.fresh h.mem
    (by simp [Window.find?, loginWindow, loginWidgets])

theorem AtLogin.at_ta (h : AtLogin g s made kb hs) {i : ℕ} (hi : i = 4 ∨ i = 5) (ev : Event) :
    g.loginEventHandler ⟨s, i⟩ ev = if ev = .released then g.kbCreate ⟨s, i⟩ else g := by
  have hta : some ⟨s, i⟩ = g.login.phoneTa ∨ some ⟨s, i⟩ = g.login.passwordTa := by
    rw [h.phoneTa, h.passwordTa]
    simpa using hi
  rw [App.loginEventHandler, if_pos hta, h.deref_tas]

theorem AtLogin.at_kb {i : ℕ} (h : AtLogin g s made (some i) hs) (ev : Event) :
    g.loginEventHandler ⟨s, i⟩ ev = if ev = .apply ∨ ev = .cancel then g.kbDel else g := by
  have hi : 8 ≤ i := h.made.2 i rfl
  have hta : ¬ (some ⟨s, i⟩ = g.login.phoneTa ∨ some ⟨s, i⟩ = g.login.passwordTa) := by
    rw [h.phoneTa, h.passwordTa]
    simp
    omega
  have hkb : some ⟨s, i⟩ = g.login.kb := h.kb_eq.symm
  rw [App.loginEventHandler, if_neg hta, if_pos hkb]

theorem AtLogin.at_loginBtn (h : AtLogin g s made kb hs) (ev : Event) :
    g.loginEventHandler ⟨s, 6⟩ ev =
      if ev = .released then
        if g.phone = loginPhone ∧ g.password = loginPassword then g.loginWinDel.mainWinCreate
        else g.toast
      else g := by
  have hta : ¬ (some ⟨s, 6⟩ = g.login.phoneTa ∨ some ⟨s, 6⟩ = g.login.passwordTa) := by
    rw [h.phoneTa, h.passwordTa]
    simp
  have hkb : some ⟨s, 6⟩ ≠ g.login.kb := by
    intro e
    obtain ⟨i, hi, he⟩ := Option.map_eq_some_iff.1 (h.kb_eq.symm.trans e.symm)
    have hi := h.made.2 i hi
    rw [(Obj.mk.inj he).2] at hi
    omega
  rw [App.loginEventHandler, if_neg hta, if_neg hkb, if_pos h.loginBtn.symm, h.deref_tas]

theorem AtLogin.exposed_windows (h : AtLogin g s made kb hs) :
    exposed g.screen.windows = [loginWindow s made kb] := by
  rw [h.windows]
  rfl

/-- An event on the login screen. -/
theorem AtLogin.event (h : AtLogin g s made kb hs) {o : Obj} {cb : Callback} (ev : Event) (n : ℕ)
    (hit : g.screen.hit o = some cb) :
    Shown (hs.length + if LogsIn g (.event o ev n) then 1 else 0) (g.eventCb o ev n cb) := by
  obtain ⟨v, hv, hwin, x, -, hx, hix, hcb⟩ := Screen.hit_spec hit
  rw [h.exposed_windows, List.mem_singleton] at hv
  subst hv
  obtain ⟨rfl, ho⟩ := login_callback hx hcb
  obtain rfl : o = ⟨s, x.ix⟩ := by rw [hix]; exact congrArg (Obj.mk · o.ix) hwin
  have hlog : LogsIn g (.event ⟨s, x.ix⟩ ev n) ↔
      x.ix = 6 ∧ ev = .released ∧ g.phone = loginPhone ∧ g.password = loginPassword := by
    simp [LogsIn, hit, h.loginBtn]
  simp only [hlog]
  change Shown _ (g.loginEventHandler ⟨s, x.ix⟩ ev)
  have hta : x.ix = 4 ∨ x.ix = 5 →
      Shown hs.length (g.loginEventHandler ⟨s, x.ix⟩ ev) := by
    intro hi
    rw [h.at_ta hi]
    split_ifs
    · obtain ⟨_, _, h'⟩ := h.kbCreate ⟨s, x.ix⟩
      exact .login h'
    · exact .login h
  rcases ho with hi | hi | hi | hi
  · rw [if_neg (by simp [hi])]
    exact hta (.inl hi)
  · rw [if_neg (by simp [hi])]
    exact hta (.inr hi)
  · rw [hi, h.at_loginBtn]
    by_cases hr : ev = .released
    · by_cases ht : g.phone = loginPhone ∧ g.password = loginPassword
      · rw [if_pos hr, if_pos ht, if_pos ⟨rfl, hr, ht⟩]
        exact .main h.enter
      · rw [if_pos hr, if_neg ht, if_neg fun hc => ht hc.2.2]
        exact .login { h with sound := { h.sound with } }
    · rw [if_neg hr, if_neg fun hc => hr hc.2.1]
      exact .login h
  · subst hi
    have := h.made.2 _ rfl
    rw [if_neg (by omega), h.at_kb]
    split_ifs
    · exact .login h.kbDel
    · exact .login h

end

/-! ## Pages over the main window -/

theorem Sound.gauge_free {g : App} {top : Option (Page × ℕ)} {hs : List ℕ} (h : Sound g top hs)
    (ht : ∀ s, top ≠ some (.gauge, s)) : g.timers.handle .gauge = none := by
  by_contra hg
  obtain ⟨s, hs⟩ := h.gauge hg
  exact ht s hs

theorem Sound.progress_free {g : App} {top : Option (Page × ℕ)} {hs : List ℕ} (h : Sound g top hs)
    (ht : ∀ s, top ≠ some (.progress, s)) : g.timers.handle .progress = none := by
  by_contra hp
  obtain ⟨s, hs⟩ := h.progress hp
  exact ht s hs

section
variable {g : App} {pages : List (Page × ℕ)} {h m made : ℕ} {mbox : Option ℕ} {old : List ℕ}

/-- **A page is opened** over folders or over the main window itself: it is put on the screen, its
task is started and the flag is set for a chart only. -/
theorem AtMain.opened (ha : AtMain g pages h m made mbox old) (hf : ∀ q ∈ pages, q.1.folder)
    {g' : App} {p : Page} (hs : g'.screen = (g.openPage p).screen) (hm : g'.main = g.main)
    (hk : g'.login = g.login) (hst : g'.stray = g.stray) (hp : g'.Points p g.screen.next)
    (hc : g'.chartFlag = 1 → p = .chart ∨ g.chartFlag = 1) (ht : g'.timers.WellFormed)
    (hh : ∀ k, some k ≠ p.task → g'.timers.handle k = g.timers.handle k) :
    AtMain g' ((p, g.screen.next) :: pages) h m made mbox old := by
  -- what was on top has neither a task nor the flag
  have htop : ∀ q s, pages.head? = some (q, s) → q.folder := fun q s hq =>
    hf (q, s) (List.mem_of_head? hq)
  have hg := ha.sound.gauge_free fun s e => htop _ s e
  have hpr := ha.sound.progress_free fun s e => htop _ s e
  have hflag : g.chartFlag ≠ 1 := fun e => by
    obtain ⟨s, hs⟩ := ha.sound.chart e
    exact htop _ s hs
  refine ⟨?_, hm.trans ha.main, (congrArg LoginVars.kb hk).trans ha.kb, ha.made, hf, ?_⟩
  · rw [hs]
    simp only [App.openPage, Screen.place, ha.windows]
    rfl
  refine ⟨?_, ht, fun e => ?_, fun e => ?_, fun e => ?_, fun e => ?_, ?_, ?_, hst.trans ha.sound.stray⟩
  · rw [hs]
    exact ha.sound.fresh.place
  · obtain rfl := (hc e).resolve_right hflag
    exact ⟨_, rfl⟩
  · by_cases hpg : some .gauge = p.task
    · cases p <;> cases hpg
      exact ⟨_, rfl⟩
    · exact absurd ((hh _ hpg).trans hg) e
  · by_cases hpp : some .progress = p.task
    · cases p <;> cases hpp
      exact ⟨_, rfl⟩
    · exact absurd ((hh _ hpp).trans hpr) e
  · rw [hm]
    refine ha.sound.header ?_
    rwa [hh _ (by cases p <;> simp [Page.task])] at e
  · exact (hh _ (by cases p <;> simp [Page.task])).trans ha.sound.file
  · intro q s e
    cases e
    exact hp

/-- A page without a task is opened. -/
theorem AtMain.opened_idle (ha : AtMain g pages h m made mbox old) (hf : ∀ q ∈ pages, q.1.folder)
    {g' : App} {p : Page} (hs : g'.screen = (g.openPage p).screen) (hm : g'.main = g.main)
    (hk : g'.login = g.login) (hst : g'.stray = g.stray) (hp : g'.Points p g.screen.next)
    (hc : g'.chartFlag = g.chartFlag) (ht : g'.timers = g.timers) :
    AtMain g' ((p, g.screen.next) :: pages) h m made mbox old :=
  ha.opened hf hs hm hk hst hp (fun e => .inr (hc ▸ e)) (ht ▸ ha.sound.timers) fun _ _ => by rw [ht]

theorem start_other {p : Page} {k : TaskKind} (hp : p.task = some k) :
    ∀ k', some k' ≠ p.task → (g.timers.start k).handle k' = g.timers.handle k' := fun _ hk' =>
  Timers.start_handle_ne fun e => hk' (e ▸ hp.symm)

theorem AtMain.chartWinCreate (ha : AtMain g pages h m made mbox old) (hf : ∀ p ∈ pages, p.1.folder) :
    AtMain g.chartWinCreate ((.chart, g.screen.next) :: pages) h m made mbox old :=
  ha.opened hf rfl rfl rfl rfl rfl (fun _ => .inl rfl) ha.sound.timers.start (start_other rfl)

theorem AtMain.gaugeWinCreate (ha : AtMain g pages h m made mbox old) (hf : ∀ p ∈ pages, p.1.folder) :
    AtMain g.gaugeWinCreate ((.gauge, g.screen.next) :: pages) h m made mbox old :=
  ha.opened hf rfl rfl rfl rfl rfl .inr ha.sound.timers.start (start_other rfl)

theorem AtMain.progressWinCreate (ha : AtMain g pages h m made mbox old)
    (hf : ∀ p ∈ pages, p.1.folder) :
    AtMain g.progressWinCreate ((.progress, g.screen.next) :: pages) h m made mbox old := by
  -- the arcs and the label have just been created
  have hd : ({ g.openPage .progress with progress := progressVars g.screen.next } : App).progressSetVal =
      { g.openPage .progress with progress := progressVars g.screen.next } :=
    deref_window (l := [4, 5, 6, 7]) (w := pageWindow (.progress, g.screen.next))
      ha.sound.fresh.place List.mem_cons_self
      (show ∀ i ∈ [4, 5, 6, 7], (Page.progress.widgets.find? (·.ix = i)).isSome = true by decide)
  rw [App.progressWinCreate, hd]
  exact ha.opened hf rfl rfl rfl rfl rfl .inr ha.sound.timers.start (start_other rfl)

theorem AtMain.page_mem {p : Page} {s : ℕ} (ha : AtMain g ((p, s) :: pages) h m made mbox old) :
    pageWindow (p, s) ∈ g.screen.windows := by
  rw [ha.windows]
  exact List.mem_cons_self

/-- What the callback of the page on top does at `USER_EVENT_BACK`: its task is deleted. -/
theorem AtMain.page_closing {p : Page} {s : ℕ} (ha : AtMain g ((p, s) :: pages) h m made mbox old)
    (o : Obj) (c : ℕ) : ∃ t,
      p.cb.elim { g with chartFlag := c } (App.windowCallback { g with chartFlag := c } o .back 0) =
        { g with chartFlag := c, timers := t } ∧ t.WellFormed ∧ t.handle .gauge = none ∧
        t.handle .progress = none ∧ t.handle .header = g.timers.handle .header ∧
        t.handle .file = none := by
  have hg : p ≠ .gauge → g.timers.handle .gauge = none := fun hp =>
    ha.sound.gauge_free fun s' e => hp (Prod.mk.inj (Option.some.inj e)).1
  have hp : p ≠ .progress → g.timers.handle .progress = none := fun hp =>
    ha.sound.progress_free fun s' e => hp (Prod.mk.inj (Option.some.inj e)).1
  have hw := ha.sound.timers
  cases p with
  | gauge =>
    exact ⟨_, rfl, hw.stop, Timers.stop_handle_self,
      (Timers.stop_handle_ne (by simp)).trans (hp (by simp)), Timers.stop_handle_ne (by simp),
      (Timers.stop_handle_ne (by simp)).trans ha.sound.file⟩
  | progress =>
    exact ⟨_, rfl, hw.stop, (Timers.stop_handle_ne (by simp)).trans (hg (by simp)),
      Timers.stop_handle_self, Timers.stop_handle_ne (by simp),
      (Timers.stop_handle_ne (by simp)).trans ha.sound.file⟩
  | calendar | chart | folder1 | folder2 | text =>
    exact ⟨_, rfl, hw, hg (by simp), hp (by simp), rfl, ha.sound.file⟩

/-- The page on top is closed. -/
theorem AtMain.closed {p : Page} {s : ℕ} (ha : AtMain g ((p, s) :: pages) h m made mbox old) :
    AtMain (g.backBtnEventHandler ⟨s, 3⟩ .released) pages h m made mbox old := by
  have hf := ha.sound.fresh
  have hscrl : g.screen.parent ⟨s, 3⟩ = ⟨s, 1⟩ :=
    hf.parent ha.page_mem (x := ⟨3, [1, 0], some .back⟩) rfl
  have hwin : g.screen.parent ⟨s, 1⟩ = ⟨s, 0⟩ := hf.parent ha.page_mem (x := ⟨1, [0], none⟩) rfl
  have hcb : g.screen.callback ⟨s, 0⟩ = p.cb := hf.callback ha.page_mem (x := ⟨0, [], p.cb⟩) rfl
  obtain ⟨t, ht, hw, hg, hp, hh, hfile⟩ := ha.page_closing ⟨s, 0⟩ 0
  have hd : ({ g with chartFlag := 0, timers := t } : App).del (some ⟨s, 0⟩) =
      { g with chartFlag := 0, timers := t, screen := g.screen.del ⟨s, 0⟩ } :=
    del_window (g := { g with chartFlag := 0, timers := t }) hf ha.page_mem rfl
  have e : g.backBtnEventHandler ⟨s, 3⟩ .released =
      { g with chartFlag := 0, timers := t, screen := g.screen.del ⟨s, 0⟩ } := by
    rw [App.backBtnEventHandler, if_neg (by simp), if_pos (.inl rfl)]
    simp only [hscrl, hwin, hcb, ht, hd]
  rw [e]
  refine ⟨hf.del_window (a := []) ha.windows, ha.main, ha.kb, ha.made,
    fun q hq => ha.folders q (List.mem_of_mem_tail hq), ?_⟩
  exact
    { fresh := hf.del
      timers := hw
      chart := fun hc => by cases hc
      gauge := fun hc => absurd hg hc
      progress := fun hc => absurd hp hc
      header := fun hc => ha.sound.header (hh ▸ hc)
      file := hfile
      points := fun q s' hq => by
        have hq := ha.folders (q, s') (List.mem_of_head? hq)
        cases q <;> trivial
      stray := ha.sound.stray }

/-- An event of the Back label of the page on top. -/
theorem AtMain.back {p : Page} {s : ℕ} (ha : AtMain g ((p, s) :: pages) h m made mbox old)
    (ev : Event) : ∃ pages', AtMain (g.backBtnEventHandler ⟨s, 3⟩ ev) pages' h m made mbox old := by
  have hlost : g.backBtnEventHandler ⟨s, 3⟩ .pressLost = g.backBtnEventHandler ⟨s, 3⟩ .released := rfl
  cases ev with
  | pressed =>
    exact ⟨_, { ha with sound := { ha.sound with chart := fun hc => by cases hc } }⟩
  | released => exact ⟨_, ha.closed⟩
  | pressLost => exact ⟨_, hlost ▸ ha.closed⟩
  | clicked | valueChanged | apply | cancel | back | other => exact ⟨_, ha⟩

theorem AtMain.deref_page {p : Page} {s : ℕ} (ha : AtMain g ((p, s) :: pages) h m made mbox old)
    {l : List ℕ} (hl : ∀ i ∈ l, (p.widgets.find? (·.ix = i)).isSome = true) :
    g.deref (l.map fun i => some ⟨s, i⟩) = g :=
  deref_window (w := pageWindow (p, s)) ha.sound.fresh ha.page_mem hl

/-- The rollers that Enter reads on the page on top. -/
theorem AtMain.deref_rollers {p : Page} {s : ℕ} (ha : AtMain g ((p, s) :: pages) h m made mbox old) :
    g.deref (g.rollers p) = g := by
  have hpoints := ha.sound.points p s rfl
  cases p with
  | calendar =>
    rw [App.rollers, hpoints]
    exact ha.deref_page (l := [5, 6, 7]) (by decide)
  | progress =>
    rw [App.rollers, hpoints]
    exact ha.deref_page (l := [8, 9, 10]) (by decide)
  | chart | gauge =>
    rw [App.rollers, hpoints]
    exact ha.deref_page (l := [6, 7]) (by decide)
  | folder1 | folder2 | text => exact deref_alive (by simp [App.rollers])

/-- An event of another widget of the page on top. -/
theorem AtMain.page_event {p : Page} {s : ℕ} (ha : AtMain g ((p, s) :: pages) h m made mbox old)
    (o : Obj) {ev : Event} (hev : ev ≠ .back) (n : ℕ) :
    ∃ pages', AtMain (g.windowCallback o ev n p.owner) pages' h m made mbox old := by
  have hd := ha.deref_rollers
  have hfile : g.fileEventHandler2 ev = g := if_neg hev
  cases p with
  | calendar =>
    have e : g.calendarEventHandler o ev = g := by
      unfold App.calendarEventHandler
      split_ifs
      · rfl
      · exact hd
      · rfl
    exact ⟨_, e.symm ▸ ha⟩
  | progress =>
    have e : g.progressEventHandler o ev = g := by
      rw [App.progressEventHandler, if_neg hev]
      split_ifs
      · exact hd
      · rfl
    exact ⟨_, e.symm ▸ ha⟩
  | chart =>
    have e : g.chartEventHandler o ev = g := by
      rw [App.chartEventHandler]
      split_ifs
      · exact hd
      · rfl
    exact ⟨_, e.symm ▸ ha⟩
  | gauge =>
    have e : g.gaugeEventHandler o ev = g := by
      rw [App.gaugeEventHandler, if_neg hev]
      split_ifs
      · exact hd
      · rfl
    exact ⟨_, e.symm ▸ ha⟩
  | folder1 entries =>
    have hf : ∀ q ∈ (Page.folder1 entries, s) :: pages, q.1.folder :=
      List.forall_mem_cons.2 ⟨trivial, ha.folders⟩
    have e : g.fileEventHandler ev n = if ev = .clicked then g.dirnWinCreate n else g := by
      rw [App.fileEventHandler, hfile]
    change ∃ pages', AtMain (g.fileEventHandler ev n) pages' h m made mbox old
    rw [e]
    split_ifs
    · exact ⟨_, ha.opened_idle hf (p := .folder2 n) rfl rfl rfl rfl trivial rfl rfl⟩
    · exact ⟨_, ha⟩
  | folder2 entries =>
    have hf : ∀ q ∈ (Page.folder2 entries, s) :: pages, q.1.folder :=
      List.forall_mem_cons.2 ⟨trivial, ha.folders⟩
    have e : g.fileEventHandler1 ev = if ev = .clicked then g.textWinCreate else g := by
      rw [App.fileEventHandler1, hfile]
    change ∃ pages', AtMain (g.fileEventHandler1 ev) pages' h m made mbox old
    rw [e]
    split_ifs
    · exact ⟨_, ha.opened_idle hf (p := .text) rfl rfl rfl rfl trivial rfl rfl⟩
    · exact ⟨_, ha⟩
  | text => exact ⟨_, hfile.symm ▸ ha⟩

end

/-! ## The main window -/

section
variable {g : App} {h m made : ℕ} {mbox : Option ℕ} {old : List ℕ}

theorem AtMain.mem (ha : AtMain g [] h m made mbox old) :
    mainWindow m made mbox ∈ g.screen.windows := by
  rw [ha.windows]
  exact List.mem_cons_of_mem _ List.mem_cons_self

theorem AtMain.split (ha : AtMain g [] h m made mbox old) :
    g.screen.windows = [headerWindow h] ++ mainWindow m made mbox :: old.map headerWindow :=
  ha.windows

theorem AtMain.exposed_windows (ha : AtMain g [] h m made mbox old) :
    exposed g.screen.windows = [headerWindow h] ++ [mainWindow m made mbox] := by
  rw [ha.split]
  exact Screen.exposed_append (by simp [headerWindow]) rfl

theorem mainWindow_mbox {i : ℕ} (hi : 15 ≤ i) :
    (mainWindow m made (some i)).find? i = some ⟨i, [10, 9, 0], some .main⟩ := by
  have hw : ∀ x ∈ mainWidgets, x.ix < 15 := by decide
  exact Window.find_last m Kind.main true made hw hi [10, 9, 0] (some .main)

theorem mainWindow_add :
    (mainWindow m made none).add 10 (some .main) = mainWindow m (made + 1) (some made) := rfl

theorem mainWindow_del {i : ℕ} (hi : 15 ≤ i) :
    (mainWindow m made (some i)).del i = mainWindow m made none := by
  have hw : ∀ x ∈ mainWidgets, x.ix < 15 ∧ ∀ j ∈ x.parents, j < 15 := by decide
  exact Window.del_last m Kind.main true made hw hi [10, 9, 0] (some .main)

theorem AtMain.quitMboxCreate (ha : AtMain g [] h m made mbox old) :
    ∃ made' i, AtMain (g.quitMboxCreate (g.screen.parent ⟨m, 13⟩)) [] h m made' (some i) old := by
  cases mbox with
  | some i =>
    have hq : g.main.quitMbox.isSome = true := by rw [ha.main]; rfl
    rw [App.quitMboxCreate, if_pos hq]
    exact ⟨_, _, ha⟩
  | none =>
    have hq : ¬ g.main.quitMbox.isSome = true := by rw [ha.main]; simp [mainVars]
    have hparent : g.screen.parent ⟨m, 13⟩ = ⟨m, 10⟩ :=
      ha.sound.fresh.parent ha.mem (x := ⟨13, [10, 9, 0], some .main⟩) rfl
    have hfresh : g.screen.fresh m = ⟨m, made⟩ := ha.sound.fresh.fresh ha.mem
    rw [App.quitMboxCreate, if_neg hq, hparent]
    simp only [hfresh]
    refine ⟨made + 1, made, ?_, ?_, ha.kb, ⟨Nat.le_succ_of_le ha.made.1, ?_⟩, by simp, ?_⟩
    · rw [← mainWindow_add]
      exact ha.sound.fresh.add_widget ha.split 10 (some .main)
    · simp [ha.main, mainVars]
    · simpa using ha.made.1
    · exact { ha.sound with fresh := ha.sound.fresh.add }

theorem AtMain.quitMboxDel {i : ℕ} (ha : AtMain g [] h m made (some i) old) :
    AtMain g.quitMboxDel [] h m made none old := by
  have hi : 15 ≤ i := ha.made.2 i rfl
  have hq : g.main.quitMbox = some ⟨m, i⟩ := by rw [ha.main]; rfl
  have hd : g.del (some ⟨m, i⟩) = { g with screen := g.screen.del ⟨m, i⟩ } :=
    del_window ha.sound.fresh ha.mem (by rw [mainWindow_mbox hi]; rfl)
  rw [App.quitMboxDel, hq, hd]
  refine ⟨?_, ?_, ha.kb, ⟨ha.made.1, by simp⟩, by simp, { ha.sound with fresh := ha.sound.fresh.del }⟩
  · have hw := ha.sound.fresh.del_widget ha.split (i := i) (by omega)
    rw [mainWindow_del hi] at hw
    exact hw
  · simp [ha.main, mainVars]

/-- A logout: only the main window is deleted; the header bar stays under the login window. -/
theorem AtMain.quit (ha : AtMain g [] h m made none old) :
    AtLogin (g.del g.main.mainWin).loginWinCreate g.screen.next 8 none (h :: old) := by
  have hm : g.main.mainWin = some ⟨m, 0⟩ := by rw [ha.main]; rfl
  have hd : g.del (some ⟨m, 0⟩) = { g with screen := g.screen.del ⟨m, 0⟩ } :=
    del_window ha.sound.fresh ha.mem rfl
  have hw := ha.sound.fresh.del_window ha.split
  have hflag : g.chartFlag ≠ 1 := fun e => by
    obtain ⟨_, h⟩ := ha.sound.chart e
    cases h
  rw [hm, hd]
  refine ⟨?_, ?_, ?_, by simp, ?_⟩
  · simp only [App.loginWinCreate, Screen.place]
    exact congrArg _ hw
  · simp only [App.loginWinCreate, ha.kb]
    rfl
  · simp only [App.loginWinCreate, ha.main]
    rfl
  · exact
      { fresh := ha.sound.fresh.del.place
        timers := ha.sound.timers
        chart := fun hc => absurd hc hflag
        gauge := fun hg => absurd (ha.sound.gauge_free fun _ e => by cases e) hg
        progress := fun hp => absurd (ha.sound.progress_free fun _ e => by cases e) hp
        header := ha.sound.header
        file := ha.sound.file
        points := fun _ _ e => by cases e
        stray := ha.sound.stray }

theorem AtMain.ne_mbox (ha : AtMain g [] h m made mbox old) {i : ℕ} (hi : i < 15) :
    some ⟨m, i⟩ ≠ g.main.quitMbox := by
  intro e
  rw [ha.main] at e
  obtain ⟨j, hj, he⟩ := Option.map_eq_some_iff.1 e.symm
  have hj := ha.made.2 j hj
  rw [(Obj.mk.inj he).2] at hj
  omega

theorem AtMain.at_mbox {i : ℕ} (ha : AtMain g [] h m made (some i) old) (ev : Event) (n : ℕ) :
    g.mainEventHandler ⟨m, i⟩ ev n = g.quitMboxAnswer ev := by
  have hi : 15 ≤ i := ha.made.2 i rfl
  have hbtn : ¬ some (⟨m, i⟩ : Obj) = g.main.quitBtn := by
    rw [ha.main]
    simp [mainVars]
    omega
  have hq : some ⟨m, i⟩ = g.main.quitMbox := by rw [ha.main]; rfl
  rw [App.mainEventHandler, if_neg hbtn, if_pos hq]

theorem AtMain.at_quitBtn (ha : AtMain g [] h m made mbox old) (ev : Event) (n : ℕ) :
    g.mainEventHandler ⟨m, 13⟩ ev n =
      if ev = .released then g.quitMboxCreate (g.screen.parent ⟨m, 13⟩) else g := by
  have hbtn : some ⟨m, 13⟩ = g.main.quitBtn := by rw [ha.main]; rfl
  rw [App.mainEventHandler, if_pos hbtn]

/-- An entry of the list opens its page. -/
theorem AtMain.at_item (ha : AtMain g [] h m made mbox old) {i : ℕ} (hi : i ∈ [4, 5, 6, 7, 8])
    (ev : Event) (n : ℕ) :
    ∃ pages', AtMain (g.mainEventHandler ⟨m, i⟩ ev n) pages' h m made mbox old := by
  simp only [List.mem_cons, List.not_mem_nil, or_false] at hi
  have hmb := ha.ne_mbox (i := i) (by omega)
  have hbtn : ¬ some (⟨m, i⟩ : Obj) = g.main.quitBtn := by
    rw [ha.main]
    simp [mainVars]
    omega
  have hnil : ∀ p ∈ ([] : List (Page × ℕ)), p.1.folder := by simp
  rw [App.mainEventHandler, if_neg hbtn, if_neg hmb, ha.main]
  rcases hi with rfl | rfl | rfl | rfl | rfl <;>
    simp only [mainVars, Option.some.injEq, Obj.mk.injEq, true_and, Nat.reduceEqDiff, if_true,
      if_false] <;> split_ifs
  · exact ⟨_, ha.opened_idle hnil (p := .calendar) rfl rfl rfl rfl rfl rfl rfl⟩
  · exact ⟨_, ha⟩
  · exact ⟨_, ha.progressWinCreate hnil⟩
  · exact ⟨_, ha⟩
  · exact ⟨_, ha.chartWinCreate hnil⟩
  · exact ⟨_, ha⟩
  · exact ⟨_, ha.gaugeWinCreate hnil⟩
  · exact ⟨_, ha⟩
  · exact ⟨_, ha.opened_idle hnil (p := .folder1 n) rfl rfl rfl rfl trivial rfl rfl⟩
  · exact ⟨_, ha⟩

theorem AtMain.main_event (ha : AtMain g [] h m made mbox old) {i : ℕ}
    (hi : i ∈ [4, 5, 6, 7, 8] ∨ i = 13 ∨ mbox = some i) (ev : Event) (n : ℕ) :
    Shown (old.length + 1) (g.mainEventHandler ⟨m, i⟩ ev n) := by
  rcases hi with hi | rfl | rfl
  · obtain ⟨_, h'⟩ := ha.at_item hi ev n
    exact .main h'
  · rw [ha.at_quitBtn]
    split_ifs
    · obtain ⟨_, _, h'⟩ := ha.quitMboxCreate
      exact .main h'
    · exact .main ha
  · rw [ha.at_mbox]
    cases ev with
    | valueChanged btn =>
      rw [App.quitMboxAnswer]
      split_ifs
      · exact .login ha.quitMboxDel.quit
      · exact .main ha.quitMboxDel
    | pressed | pressLost | clicked | released | apply | cancel | back | other => exact .main ha

end

/-- An event over the main window. -/
theorem AtMain.event {g : App} {pages : List (Page × ℕ)} {h m made : ℕ} {mbox : Option ℕ}
    {old : List ℕ} (ha : AtMain g pages h m made mbox old) {o : Obj} {cb : Callback} {ev : Event}
    (hev : ev ≠ .back) (n : ℕ) (hit : g.screen.hit o = some cb) :
    cb ≠ .login ∧ Shown (old.length + 1) (g.eventCb o ev n cb) := by
  obtain ⟨v, hv, hwin, x, -, hx, hix, hcb⟩ := Screen.hit_spec hit
  cases pages with
  | nil =>
    rw [ha.exposed_windows] at hv
    rcases List.mem_append.1 hv with hv | hv <;> obtain rfl := List.mem_singleton.1 hv
    · -- nothing in the header bar has a callback
      have hno : ∀ x ∈ headerWidgets, x.cb = none := by decide
      cases (hno x hx).symm.trans hcb
    · obtain ⟨rfl, hi⟩ := main_callback hx hcb
      obtain rfl : o = ⟨m, x.ix⟩ := by rw [hix]; exact congrArg (Obj.mk · o.ix) hwin
      exact ⟨by simp, ha.main_event hi ev n⟩
  | cons p pages =>
    have hexp : exposed g.screen.windows = [pageWindow p] := by rw [ha.windows]; rfl
    rw [hexp] at hv
    obtain rfl := List.mem_singleton.1 hv
    obtain rfl : o = ⟨p.2, x.ix⟩ := by rw [hix]; exact congrArg (Obj.mk · o.ix) hwin
    rcases Page.callback hx hcb with ⟨rfl, hi⟩ | rfl
    · rw [hi]
      obtain ⟨_, h'⟩ := ha.back ev
      exact ⟨by simp, .main h'⟩
    · have hne : p.1.owner ≠ .login ∧ p.1.owner ≠ .back := by
        obtain ⟨p, s⟩ := p
        cases p <;> simp [Page.owner]
      obtain ⟨_, h'⟩ := ha.page_event ⟨p.2, x.ix⟩ hev n
      have e : g.eventCb ⟨p.2, x.ix⟩ ev n p.1.owner = g.windowCallback ⟨p.2, x.ix⟩ ev n p.1.owner := by
        obtain ⟨p, s⟩ := p
        cases p <;> rfl
      exact ⟨hne.1, e ▸ .main h'⟩

end DataRecorder.Gui
