/-
  What is left on the screen by the sessions before.

  `main_win_create` builds the main window and, through `header_create`, the header
  bar, both on the screen; "Yes" in the quit dialog deletes the main window alone.
  Every login leaves one header bar with its three labels behind.

  * `same_as_powerUp_iff`: on the login screen the live objects are those of
    power-up, if and only if nobody has logged in;
  * `objects_of_run`: they are four more for each login;
  * `objects_unbounded`: hence they outgrow every bound.
-/
import DataRecorder.Gui.Callbacks

namespace DataRecorder.Gui

open Base

/-- The login window is on top. -/
def App.OnLogin (g : App) : Prop := g.screen.windows.head?.map (·.kind) = some .login

/-- Neither the keyboard nor the quit dialog is open. -/
def App.NoDialog (g : App) : Prop := g.login.kb = none ∧ g.main.quitMbox = none

/-- The live objects of the screen, window by window, whatever the serial numbers of the windows. -/
def App.contents (g : App) : List (Kind × List (Widget Callback)) :=
  g.screen.windows.map fun w => (w.kind, w.widgets)

def App.objects (g : App) : ℕ := (g.contents.flatMap (·.2)).length

/-- Only a screen with the login window has it on top. -/
theorem Shown.atLogin {n : ℕ} {g : App} (h : Shown n g) (hl : g.OnLogin) (hd : g.NoDialog) :
    ∃ s made hs, AtLogin g s made none hs ∧ hs.length = n := by
  cases h with
  | @login _ s made kb hs h =>
    have hkb : kb = none := by
      have := h.kb_eq.symm.trans hd.1
      simpa using this
    exact ⟨s, made, hs, hkb ▸ h, rfl⟩
  | @main _ pages t m made mbox old h =>
    rw [App.OnLogin, h.windows] at hl
    cases pages with
    | nil => simp [headerWindow] at hl
    | cons p pages => simp [pageWindow] at hl

theorem AtLogin.contents {g : App} {s made : ℕ} {hs : List ℕ} (h : AtLogin g s made none hs) :
    g.contents = (.login, loginWidgets) :: List.replicate hs.length (.header, headerWidgets) := by
  rw [App.contents, h.windows, List.map_cons, List.map_map]
  have hconst : hs.map (fun _ => (Kind.header, headerWidgets)) = _ := List.map_const'
  exact congrArg _ hconst

theorem contents_guiAppStart : guiAppStart.contents = [(.login, loginWidgets)] := rfl

/-- **The screen after a session.** -/
theorem same_as_powerUp_iff {as : List Action} {g : App} (hr : run step as guiAppStart = some g)
    (hl : g.OnLogin) (hd : g.NoDialog) :
    g.contents = guiAppStart.contents ↔
      Guarded step (fun g a => ¬ LogsIn g a) guiAppStart as := by
  obtain ⟨s, made, hs, h, hn⟩ := (shown_of_run hr).atLogin hl hd
  rw [h.contents, contents_guiAppStart, ← tally_eq_zero, ← hn, List.cons.injEq]
  simp

theorem same_as_powerUp_failed : ∃ g,
    run step [.event ⟨0, 6⟩ .released 0, .toastClosed] guiAppStart = some g ∧
      g.contents = guiAppStart.contents := by
  obtain ⟨g, hr, h⟩ := Option.map_eq_some_iff.1 (show
    (run step [.event ⟨0, 6⟩ .released 0, .toastClosed] guiAppStart).map
      (fun g => (g.screen.windows.head?.map (·.kind), g.login.kb, g.main.quitMbox)) =
      some (some .login, none, none) by decide +kernel)
  simp only [Prod.mk.injEq] at h
  exact ⟨g, hr, (same_as_powerUp_iff hr h.1 h.2).2 (by decide +kernel)⟩

/-- "Quit" in the main window `m`, then "Yes" in the dialog `i`. -/
def signOut (m i : ℕ) : List Action :=
  [.event ⟨m, 13⟩ .released 0, .event ⟨m, i⟩ (.valueChanged 0) 0]

/-- One session leaves the header bar behind. -/
theorem not_same_as_powerUp : ∃ g, run step (signIn 0 ++ signOut 1 15) guiAppStart = some g ∧
    g.OnLogin ∧ g.NoDialog ∧ g.contents ≠ guiAppStart.contents := by
  obtain ⟨g, hr, h⟩ := Option.map_eq_some_iff.1 (show
    (run step (signIn 0 ++ signOut 1 15) guiAppStart).map
      (fun g => (g.screen.windows.head?.map (·.kind), (g.login.kb, g.main.quitMbox), g.objects)) =
      some (some .login, (none, none), 12) by decide +kernel)
  simp only [Prod.mk.injEq] at h
  obtain ⟨hl, hd, hn⟩ := h
  refine ⟨g, hr, hl, hd, fun hc => ?_⟩
  have : g.objects = guiAppStart.objects := congrArg (fun c => (c.flatMap (·.2)).length) hc
  rw [hn] at this
  exact absurd this (by decide)

/-- Each login leaves four objects behind. -/
theorem objects_of_run {as : List Action} {g : App} (hr : run step as guiAppStart = some g)
    (hl : g.OnLogin) (hd : g.NoDialog) :
    g.objects = guiAppStart.objects + 4 * tally step LogsIn guiAppStart as := by
  obtain ⟨s, made, hs, h, hn⟩ := (shown_of_run hr).atLogin hl hd
  rw [App.objects, App.objects, h.contents, contents_guiAppStart, ← hn]
  simp [headerWidgets, Nat.mul_comm]

/-! ## Any number of sessions -/

section
variable {g : App} {s made : ℕ} {kb : Option ℕ} {hs : List ℕ}

theorem AtLogin.hit (h : AtLogin g s made kb hs) (i : ℕ) :
    g.screen.hit ⟨s, i⟩ = ((loginWindow s made kb).find? i).bind (·.cb) :=
  h.sound.fresh.hit (w := loginWindow s made kb) (h.exposed_windows ▸ List.mem_cons_self) i

theorem kbCreate_texts (g : App) (o : Obj) :
    (g.kbCreate o).phone = g.phone ∧ (g.kbCreate o).password = g.password ∧
      (g.kbCreate o).ta = some o := by
  rw [App.kbCreate]
  split_ifs <;> exact ⟨rfl, rfl, rfl⟩

/-- A text is typed into a text area. -/
theorem AtLogin.type (h : AtLogin g s made kb hs) {i : ℕ} (hi : i = 4 ∨ i = 5) (text : List Char) :
    ∃ g' made' j, run step [.event ⟨s, i⟩ .released 0, .typed text] g = some g' ∧
      AtLogin g' s made' (some j) hs ∧ g'.phone = (if i = 4 then text else g.phone) ∧
      g'.password = if i = 4 then g.password else text := by
  have hhit : g.screen.hit ⟨s, i⟩ = some .login := by
    rw [h.hit]
    rcases hi with rfl | rfl <;> rfl
  have h₁ : step (.event ⟨s, i⟩ .released 0) g = some (g.kbCreate ⟨s, i⟩) := by
    rw [step, if_neg (by simp), hhit, Option.map_some]
    exact congrArg some ((h.at_ta hi .released).trans (if_pos rfl))
  obtain ⟨made', j, h'⟩ := h.kbCreate ⟨s, i⟩
  obtain ⟨hphone, hpassword, hta⟩ := kbCreate_texts g ⟨s, i⟩
  have hkb : (g.kbCreate ⟨s, i⟩).login.kb ≠ none := by
    rw [h'.kb_eq]
    simp
  refine ⟨{ g.kbCreate ⟨s, i⟩ with
    phone := if i = 4 then text else g.phone
    password := if i = 4 then g.password else text }, made', j, ?_,
    { h' with sound := { h'.sound with } }, rfl, rfl⟩
  have h₂ : step (.typed text) (g.kbCreate ⟨s, i⟩) = some { g.kbCreate ⟨s, i⟩ with
      phone := if i = 4 then text else g.phone
      password := if i = 4 then g.password else text } := by
    have hc : (g.kbCreate ⟨s, i⟩).ta = (g.kbCreate ⟨s, i⟩).login.phoneTa ↔ i = 4 := by
      rw [hta, h'.phoneTa]
      simp
    rw [step, if_neg hkb]
    by_cases h4 : i = 4
    · rw [if_pos (hc.2 h4), if_pos h4, if_pos h4, ← hpassword]
    · rw [if_neg (mt hc.1 h4), if_neg h4, if_neg h4, ← hphone]
  exact run_cons_some.2 ⟨_, h₁, run_cons_some.2 ⟨_, h₂, rfl⟩⟩

/-- A login can succeed on every login screen. -/
theorem AtLogin.signIn (h : AtLogin g s made kb hs) :
    ∃ g' t m, run step (signIn s) g = some g' ∧ AtMain g' [] t m 15 none hs := by
  obtain ⟨g₁, _, _, h₁, ha₁, hphone, -⟩ := h.type (.inl rfl) loginPhone
  obtain ⟨g₂, _, _, h₂, ha₂, hphone', hpassword⟩ := ha₁.type (.inr rfl) loginPassword
  have htexts : g₂.phone = loginPhone ∧ g₂.password = loginPassword := by
    refine ⟨?_, hpassword⟩
    rw [hphone', if_neg (by simp), hphone, if_pos rfl]
  have hhit : g₂.screen.hit ⟨s, 6⟩ = some .login := ha₂.hit 6
  have h₃ : step (.event ⟨s, 6⟩ .released 0) g₂ = some g₂.loginWinDel.mainWinCreate := by
    rw [step, if_neg (by simp), hhit, Option.map_some]
    refine congrArg some ((ha₂.at_loginBtn .released).trans ?_)
    rw [if_pos rfl, if_pos htexts]
  exact ⟨_, _, _, run_append_some (run_append_some (run_cons_some.2 ⟨_, h₃, rfl⟩) h₂) h₁, ha₂.enter⟩

end

section
variable {g : App} {h m made : ℕ} {mbox : Option ℕ} {old : List ℕ}

theorem AtMain.hit (ha : AtMain g [] h m made mbox old) (i : ℕ) :
    g.screen.hit ⟨m, i⟩ = ((mainWindow m made mbox).find? i).bind (·.cb) :=
  ha.sound.fresh.hit (w := mainWindow m made mbox)
    (ha.exposed_windows ▸ List.mem_cons_of_mem _ List.mem_cons_self) i

/-- A logout can succeed in every main window. -/
theorem AtMain.signOut (ha : AtMain g [] h m made none old) :
    ∃ g' s i, run step (signOut m i) g = some g' ∧ AtLogin g' s 8 none (h :: old) := by
  have h₁ : step (.event ⟨m, 13⟩ .released 0) g =
      some (g.quitMboxCreate (g.screen.parent ⟨m, 13⟩)) := by
    rw [step, if_neg (by simp), ha.hit 13]
    exact congrArg some ((ha.at_quitBtn .released 0).trans (if_pos rfl))
  obtain ⟨_, i, ha'⟩ := ha.quitMboxCreate
  generalize g.quitMboxCreate (g.screen.parent ⟨m, 13⟩) = g' at h₁ ha'
  have hhit : g'.screen.hit ⟨m, i⟩ = some .main := by
    rw [ha'.hit, mainWindow_mbox (ha'.made.2 i rfl)]
    rfl
  have h₂ : step (.event ⟨m, i⟩ (.valueChanged 0) 0) g' =
      some (g'.quitMboxDel.del g'.quitMboxDel.main.mainWin).loginWinCreate := by
    have hyes : g'.quitMboxAnswer (.valueChanged 0) =
        (g'.quitMboxDel.del g'.quitMboxDel.main.mainWin).loginWinCreate := by
      rw [App.quitMboxAnswer, if_pos rfl]
    rw [step, if_neg (by simp), hhit]
    exact congrArg some ((ha'.at_mbox _ _).trans hyes)
  exact ⟨_, _, i, run_cons_some.2 ⟨_, h₁, run_cons_some.2 ⟨_, h₂, rfl⟩⟩, ha'.quitMboxDel.quit⟩

end

/-- After any number of sessions the login screen is shown again. -/
theorem sessions (n : ℕ) : ∃ as g s hs, run step as guiAppStart = some g ∧
    AtLogin g s 8 none hs ∧ hs.length = n := by
  induction n with
  | zero => exact ⟨[], guiAppStart, 0, [], rfl, atLogin_guiAppStart, rfl⟩
  | succ n ih =>
    obtain ⟨as, g, s, hs, hr, h, hn⟩ := ih
    obtain ⟨g₁, t, m, h₁, ha⟩ := h.signIn
    obtain ⟨g₂, s', i, h₂, h'⟩ := ha.signOut
    exact ⟨_, g₂, s', t :: hs, run_append_some (run_append_some h₂ h₁) hr, h', by simp [hn]⟩

/-- **The live objects outgrow every bound**, on login screens without a dialog. -/
theorem objects_unbounded (n : ℕ) : ∃ as g, run step as guiAppStart = some g ∧ g.OnLogin ∧
    g.NoDialog ∧ n < g.objects := by
  obtain ⟨as, g, s, hs, hr, h, hn⟩ := sessions n
  refine ⟨as, g, hr, ?_, ⟨?_, h.quitMbox⟩, ?_⟩
  · rw [App.OnLogin, h.windows]
    rfl
  · rw [h.kb_eq]
    rfl
  · rw [App.objects, h.contents, hn]
    simp [loginWidgets, headerWidgets]
    omega

end DataRecorder.Gui
