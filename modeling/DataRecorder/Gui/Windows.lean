/-
  The windows of the recorder (`GUI_APP/Src/app.c`, `GUI_APP/WIN/*.c`).

  The screen holds the login window, or the main window with the header bar; the
  other windows are opened over the main window and closed by their Back label.
  Each C file keeps pointers to its widgets, and most a periodic task that updates
  them.  `step` is one event sent to a widget that no window covers, one run of a
  live task, one text typed on the keyboard, or the closing of a toast.

  Widgets that LVGL makes for itself inside another belong to that widget.  A toast
  is a message box that no callback and no pointer refers to.
-/
import DataRecorder.Base.System
import DataRecorder.Base.Timers
import DataRecorder.Base.Widgets

namespace DataRecorder.Gui

open Base

/-- The windows opened by `general_win_create`; a folder with the number of its entries. -/
inductive Page where
  | calendar
  | progress
  | chart
  | gauge
  | folder1 (entries : ℕ)
  | folder2 (entries : ℕ)
  | text
  deriving DecidableEq

inductive Kind where
  | login
  | main
  | header
  | page (p : Page)
  deriving DecidableEq

/-- The event callbacks: those named `event_handler` by their file. -/
inductive Callback where
  | login
  | main
  | calendar
  | progress
  | chart
  | gauge
  /-- `event_handler`, `event_handler1`, `event_handler2` of `file_win.c` -/
  | file
  | file1
  | file2
  /-- `back_btn_event_handler` -/
  | back
  deriving DecidableEq

inductive Event where
  | pressed
  | pressLost
  | clicked
  | released
  | valueChanged (btn : ℕ)
  | apply
  | cancel
  /-- `USER_EVENT_BACK`, which only `back_btn_event_handler` sends -/
  | back
  | other
  deriving DecidableEq

/-- The static `task` handles, one for each file. -/
inductive TaskKind where
  | header
  | progress
  | chart
  | gauge
  | file
  deriving DecidableEq

/-! ## Static pointers -/

structure LoginVars where
  loginWin : Option Obj := none
  phoneTa : Option Obj := none
  passwordTa : Option Obj := none
  kb : Option Obj := none
  loginBtn : Option Obj := none

structure MainVars where
  clockTime : Option Obj := none
  cpuLoad : Option Obj := none
  mainWin : Option Obj := none
  quitBtn : Option Obj := none
  quitMbox : Option Obj := none
  calendarItemBtn : Option Obj := none
  progressItemBtn : Option Obj := none
  chartItemBtn : Option Obj := none
  gaugeItemBtn : Option Obj := none
  fileItemBtn : Option Obj := none
  header : Option Obj := none

/-- A series belongs to its chart and goes with it. -/
structure ChartVars where
  chart1 : Option Obj := none
  series1 : Option Obj := none
  series2 : Option Obj := none
  label1 : Option Obj := none
  temp : List (Option Obj) := []
  enterBtn : Option Obj := none

structure GaugeVars where
  gauge1 : Option Obj := none
  label1 : Option Obj := none
  humi : List (Option Obj) := []
  enterBtn : Option Obj := none

structure ProgressVars where
  arc1 : Option Obj := none
  arc2 : Option Obj := none
  arc3 : Option Obj := none
  progressLabel : Option Obj := none
  timeRoller : List (Option Obj) := []
  timePointLabel : List (Option Obj) := []
  enterBtn : Option Obj := none

structure CalendarVars where
  calendar1 : Option Obj := none
  dateRoller : List (Option Obj) := []
  dateHlineLabel : List (Option Obj) := []
  enterBtn : Option Obj := none

/-! ## Windows and their variables -/

def loginPhone : List Char := ['1', '2', '3']

def loginPassword : List Char := ['a']

/-- The window, its scrollable part, the title, the logo, the text areas, the button and its
label. -/
def loginWidgets : List (Widget Callback) :=
  [⟨0, [], none⟩, ⟨1, [0], none⟩, ⟨2, [1, 0], none⟩, ⟨3, [1, 0], none⟩, ⟨4, [1, 0], some .login⟩,
    ⟨5, [1, 0], some .login⟩, ⟨6, [1, 0], some .login⟩, ⟨7, [6, 1, 0], none⟩]

def loginVars (s : ℕ) (kb : Option Obj) : LoginVars where
  loginWin := some ⟨s, 0⟩
  phoneTa := some ⟨s, 4⟩
  passwordTa := some ⟨s, 5⟩
  kb := kb
  loginBtn := some ⟨s, 6⟩

/-- The tab view; the home tab, its scrollable part, the list and its five entries; the setting
tab, its scrollable part, the table, the title, the button and its label. -/
def mainWidgets : List (Widget Callback) :=
  [⟨0, [], none⟩,
    ⟨1, [0], none⟩, ⟨2, [1, 0], none⟩, ⟨3, [2, 1, 0], none⟩, ⟨4, [3, 2, 1, 0], some .main⟩,
    ⟨5, [3, 2, 1, 0], some .main⟩, ⟨6, [3, 2, 1, 0], some .main⟩, ⟨7, [3, 2, 1, 0], some .main⟩,
    ⟨8, [3, 2, 1, 0], some .main⟩,
    ⟨9, [0], none⟩, ⟨10, [9, 0], none⟩, ⟨11, [10, 9, 0], none⟩, ⟨12, [10, 9, 0], none⟩,
    ⟨13, [10, 9, 0], some .main⟩, ⟨14, [13, 10, 9, 0], none⟩]

/-- The container, the symbols, the clock and the load. -/
def headerWidgets : List (Widget Callback) :=
  [⟨0, [], none⟩, ⟨1, [0], none⟩, ⟨2, [0], none⟩, ⟨3, [0], none⟩]

def mainVars (m h : ℕ) (quitMbox : Option Obj) : MainVars where
  clockTime := some ⟨h, 2⟩
  cpuLoad := some ⟨h, 3⟩
  mainWin := some ⟨m, 0⟩
  quitBtn := some ⟨m, 13⟩
  quitMbox := quitMbox
  calendarItemBtn := some ⟨m, 4⟩
  progressItemBtn := some ⟨m, 5⟩
  chartItemBtn := some ⟨m, 6⟩
  gaugeItemBtn := some ⟨m, 7⟩
  fileItemBtn := some ⟨m, 8⟩
  header := some ⟨h, 0⟩

/-- The entries of a list, one button each. -/
def fileButtons (cb : Callback) (entries : ℕ) : List (Widget Callback) :=
  (List.range entries).map fun i => ⟨5 + i, [4, 1, 0], some cb⟩

/-- The callback of the page itself. -/
def Page.cb : Page → Option Callback
  | .progress => some .progress
  | .gauge => some .gauge
  | _ => none

/-- What is put on the page. -/
def Page.body : Page → List (Widget Callback)
  -- the calendar, the rollers, the labels between them, Enter and its label
  | .calendar =>
    [⟨4, [1, 0], some .calendar⟩, ⟨5, [1, 0], none⟩, ⟨6, [1, 0], none⟩, ⟨7, [1, 0], none⟩,
      ⟨8, [1, 0], none⟩, ⟨9, [1, 0], none⟩, ⟨10, [1, 0], none⟩, ⟨11, [1, 0], some .calendar⟩,
      ⟨12, [11, 1, 0], none⟩]
  -- the arcs, the label, the rollers, the colons, Enter and its label
  | .progress =>
    [⟨4, [1, 0], none⟩, ⟨5, [1, 0], none⟩, ⟨6, [1, 0], none⟩, ⟨7, [1, 0], none⟩,
      ⟨8, [1, 0], none⟩, ⟨9, [1, 0], none⟩, ⟨10, [1, 0], none⟩, ⟨11, [1, 0], none⟩,
      ⟨12, [1, 0], none⟩, ⟨13, [1, 0], some .progress⟩, ⟨14, [13, 1, 0], none⟩]
  -- the chart, the label, the rollers, Enter and its label
  | .chart =>
    [⟨4, [1, 0], none⟩, ⟨5, [1, 0], none⟩, ⟨6, [1, 0], none⟩, ⟨7, [1, 0], none⟩,
      ⟨8, [1, 0], some .chart⟩, ⟨9, [8, 1, 0], none⟩]
  | .gauge =>
    [⟨4, [1, 0], none⟩, ⟨5, [1, 0], none⟩, ⟨6, [1, 0], none⟩, ⟨7, [1, 0], none⟩,
      ⟨8, [1, 0], some .gauge⟩, ⟨9, [8, 1, 0], none⟩]
  | .folder1 n => ⟨4, [1, 0], none⟩ :: fileButtons .file n
  | .folder2 n => ⟨4, [1, 0], none⟩ :: fileButtons .file1 n
  | .text => [⟨4, [1, 0], some .file2⟩]

/-- `general_win_create`: the page, its scrollable part, the title, Back, and what the caller
puts on it. -/
def Page.widgets (p : Page) : List (Widget Callback) :=
  [⟨0, [], p.cb⟩, ⟨1, [0], none⟩, ⟨2, [1, 0], none⟩, ⟨3, [1, 0], some .back⟩] ++ p.body

def calendarVars (s : ℕ) : CalendarVars where
  calendar1 := some ⟨s, 4⟩
  dateRoller := [some ⟨s, 5⟩, some ⟨s, 6⟩, some ⟨s, 7⟩]
  dateHlineLabel := [some ⟨s, 8⟩, some ⟨s, 9⟩, some ⟨s, 10⟩]
  enterBtn := some ⟨s, 11⟩

def progressVars (s : ℕ) : ProgressVars where
  arc1 := some ⟨s, 4⟩
  arc2 := some ⟨s, 5⟩
  arc3 := some ⟨s, 6⟩
  progressLabel := some ⟨s, 7⟩
  timeRoller := [some ⟨s, 8⟩, some ⟨s, 9⟩, some ⟨s, 10⟩]
  timePointLabel := [some ⟨s, 11⟩, some ⟨s, 12⟩]
  enterBtn := some ⟨s, 13⟩

def chartVars (s : ℕ) : ChartVars where
  chart1 := some ⟨s, 4⟩
  series1 := some ⟨s, 4⟩
  series2 := some ⟨s, 4⟩
  label1 := some ⟨s, 5⟩
  temp := [some ⟨s, 6⟩, some ⟨s, 7⟩]
  enterBtn := some ⟨s, 8⟩

def gaugeVars (s : ℕ) : GaugeVars where
  gauge1 := some ⟨s, 4⟩
  label1 := some ⟨s, 5⟩
  humi := [some ⟨s, 6⟩, some ⟨s, 7⟩]
  enterBtn := some ⟨s, 8⟩

/-- The screen, the variables of the C files and the tasks. -/
structure App where
  screen : Screen Kind Callback
  /-- the toasts that are still shown -/
  toasts : ℕ
  login : LoginVars
  main : MainVars
  chart : ChartVars
  gauge : GaugeVars
  progress : ProgressVars
  calendar : CalendarVars
  chartFlag : ℕ
  timers : Timers TaskKind
  /-- the texts in the text areas, and the area that the keyboard writes to -/
  phone : List Char
  password : List Char
  ta : Option Obj
  /-- the pointers used so far that were `NULL` or named a deleted widget -/
  stray : List (Option Obj)

namespace App

/-- Use the widgets that `ps` point to. -/
def deref (g : App) (ps : List (Option Obj)) : App :=
  { g with stray := g.stray ++ ps.filter fun p => !p.any g.screen.alive }

/-- `lv_obj_del`. -/
def del (g : App) (p : Option Obj) : App :=
  { g.deref [p] with screen := p.elim g.screen g.screen.del }

/-! ## `app.c` -/

def toast (g : App) : App := { g with toasts := g.toasts + 1 }

/-! ## `login_win.c` -/

def loginWinCreate (g : App) : App :=
  { g with
    screen := g.screen.place .login true loginWidgets
    login := loginVars g.screen.next g.login.kb
    phone := []
    password := [] }

/-- The keyboard is put on the scrollable part of the login window. -/
def kbNew (g : App) : App :=
  let s := g.login.loginWin.elim 0 (·.win)
  { g with
    screen := g.screen.add ⟨s, 1⟩ (some .login)
    login := { g.login with kb := some (g.screen.fresh s) } }

def kbCreate (g : App) (bindTa : Obj) : App :=
  let g := if g.login.kb = none then g.kbNew else g
  { g.deref [g.login.kb] with ta := some bindTa }

/-- `lv_obj_del(kb); kb = NULL`. -/
def kbDel (g : App) : App := { g.del g.login.kb with login := { g.login with kb := none } }

/-- `lv_obj_del(login_win); login_win = NULL; kb = NULL`. -/
def loginWinDel (g : App) : App :=
  { g.del g.login.loginWin with login := { g.login with loginWin := none, kb := none } }

/-! ## `main_win.c` -/

/-- `main_win_create`, with `header_create`, which puts the header on the screen. -/
def mainWinCreate (g : App) : App :=
  { g with
    screen := (g.screen.place .main true mainWidgets).place .header false headerWidgets
    main := mainVars g.screen.next (g.screen.next + 1) g.main.quitMbox
    timers := g.timers.start .header }

def quitMboxCreate (g : App) (parent : Obj) : App :=
  if g.main.quitMbox.isSome then g
  else
    { g with
      screen := g.screen.add parent (some .main)
      main := { g.main with quitMbox := some (g.screen.fresh parent.win) } }

/-- `lv_obj_del(quit_mbox); quit_mbox = NULL`. -/
def quitMboxDel (g : App) : App :=
  { g.del g.main.quitMbox with main := { g.main with quitMbox := none } }

/-! ## The pages -/

def openPage (g : App) (p : Page) : App :=
  { g with screen := g.screen.place (.page p) true p.widgets }

def calendarWinCreate (g : App) : App :=
  { g.openPage .calendar with calendar := calendarVars g.screen.next }

/-- `progress_set_val`, the body of `progress_task` of `progress_win.c`. -/
def progressSetVal (g : App) : App :=
  g.deref [g.progress.arc1, g.progress.arc2, g.progress.arc3, g.progress.progressLabel]

def progressWinCreate (g : App) : App :=
  let g := { g.openPage .progress with progress := progressVars g.screen.next }
  { g.progressSetVal with timers := g.timers.start .progress }

def chartWinCreate (g : App) : App :=
  { g.openPage .chart with
    chart := chartVars g.screen.next
    chartFlag := 1
    timers := g.timers.start .chart }

def gaugeWinCreate (g : App) : App :=
  { g.openPage .gauge with
    gauge := gaugeVars g.screen.next
    timers := g.timers.start .gauge }

/-- `file_win_create`, where `readdir` gives `entries` names. -/
def fileWinCreate (g : App) (entries : ℕ) : App := g.openPage (.folder1 entries)

def dirnWinCreate (g : App) (entries : ℕ) : App := g.openPage (.folder2 entries)

def textWinCreate (g : App) : App := g.openPage .text

/-! ## Event callbacks -/

def loginEventHandler (g : App) (obj : Obj) (ev : Event) : App :=
  if some obj = g.login.phoneTa ∨ some obj = g.login.passwordTa then
    if ev = .released then (g.deref [g.login.phoneTa, g.login.passwordTa]).kbCreate obj else g
  else if some obj = g.login.kb then
    if ev = .apply ∨ ev = .cancel then g.kbDel else g
  else if some obj = g.login.loginBtn then
    if ev = .released then
      let g := g.deref [g.login.phoneTa, g.login.passwordTa]
      if g.phone = loginPhone ∧ g.password = loginPassword then g.loginWinDel.mainWinCreate
      else g.toast
    else g
  else g

/-- An event of the dialog, whose button 0 is "Yes". -/
def quitMboxAnswer (g : App) : Event → App
  | .valueChanged btn =>
    let g := g.quitMboxDel
    if btn = 0 then (g.del g.main.mainWin).loginWinCreate else g
  | _ => g

def mainEventHandler (g : App) (obj : Obj) (ev : Event) (entries : ℕ) : App :=
  if some obj = g.main.quitBtn then
    if ev = .released then g.quitMboxCreate (g.screen.parent obj) else g
  else if some obj = g.main.quitMbox then
    g.quitMboxAnswer ev
  else if some obj = g.main.calendarItemBtn then
    if ev = .clicked then g.calendarWinCreate else g
  else if some obj = g.main.progressItemBtn then
    if ev = .clicked then g.progressWinCreate else g
  else if some obj = g.main.chartItemBtn then
    if ev = .clicked then g.chartWinCreate else g
  else if some obj = g.main.gaugeItemBtn then
    if ev = .clicked then g.gaugeWinCreate else g
  else if some obj = g.main.fileItemBtn then
    if ev = .clicked then g.fileWinCreate entries else g
  else g

def calendarEventHandler (g : App) (obj : Obj) (ev : Event) : App :=
  if some obj = g.calendar.calendar1 then g
  else if some obj = g.calendar.enterBtn ∧ ev = .released then g.deref g.calendar.dateRoller
  else g

def progressEventHandler (g : App) (obj : Obj) (ev : Event) : App :=
  if ev = .back then { g with timers := g.timers.stop .progress }
  else if some obj = g.progress.enterBtn ∧ ev = .released then g.deref g.progress.timeRoller
  else g

def chartEventHandler (g : App) (obj : Obj) (ev : Event) : App :=
  if some obj = g.chart.enterBtn ∧ ev = .released then g.deref g.chart.temp else g

def gaugeEventHandler (g : App) (obj : Obj) (ev : Event) : App :=
  if ev = .back then { g with timers := g.timers.stop .gauge }
  else if some obj = g.gauge.enterBtn ∧ ev = .released then g.deref g.gauge.humi
  else g

/-- `event_handler2`, and what the other two of `file_win.c` begin with. -/
def fileEventHandler2 (g : App) (ev : Event) : App :=
  if ev = .back then { g with timers := g.timers.stop .file } else g

def fileEventHandler (g : App) (ev : Event) (entries : ℕ) : App :=
  let g := g.fileEventHandler2 ev
  if ev = .clicked then g.dirnWinCreate entries else g

def fileEventHandler1 (g : App) (ev : Event) : App :=
  let g := g.fileEventHandler2 ev
  if ev = .clicked then g.textWinCreate else g

/-- The callbacks but `back_btn_event_handler`, which does nothing at `USER_EVENT_BACK`. -/
def windowCallback (g : App) (obj : Obj) (ev : Event) (entries : ℕ) : Callback → App
  | .login => g.loginEventHandler obj ev
  | .main => g.mainEventHandler obj ev entries
  | .calendar => g.calendarEventHandler obj ev
  | .progress => g.progressEventHandler obj ev
  | .chart => g.chartEventHandler obj ev
  | .gauge => g.gaugeEventHandler obj ev
  | .file => g.fileEventHandler ev entries
  | .file1 => g.fileEventHandler1 ev
  | .file2 => g.fileEventHandler2 ev
  | .back => g

/-- The window of Back is two levels up: the label lies in the scrollable part of the page. -/
def backBtnEventHandler (g : App) (obj : Obj) (ev : Event) : App :=
  if ev = .pressed then { g with chartFlag := 0 }
  else if ev = .released ∨ ev = .pressLost then
    let g := { g with chartFlag := 0 }
    let win := g.screen.parent (g.screen.parent obj)
    ((g.screen.callback win).elim g (g.windowCallback win .back 0)).del (some win)
  else g

def eventCb (g : App) (obj : Obj) (ev : Event) (entries : ℕ) : Callback → App
  | .back => g.backBtnEventHandler obj ev
  | cb => g.windowCallback obj ev entries cb

/-! ## Tasks -/

/-- `progress_task` of `main_win.c`. -/
def headerTask (g : App) : App := g.deref [g.main.clockTime, g.main.cpuLoad]

def tempTask (g : App) : App :=
  if g.chartFlag = 1 then
    g.deref [g.chart.series1, g.chart.series2, g.chart.chart1, g.chart.label1]
  else g

/-- `task_cb` of `gauge_win.c`. -/
def taskCb (g : App) : App := g.deref [g.gauge.gauge1, g.gauge.label1]

def runTask (g : App) : TaskKind → App
  | .header => g.headerTask
  | .progress => g.progressSetVal
  | .chart => g.tempTask
  | .gauge => g.taskCb
  | .file => g

end App

/-! ## Runs -/

inductive Action where
  /-- an event sent to `obj`; a folder opened by it has `entries` entries -/
  | event (obj : Obj) (ev : Event) (entries : ℕ)
  | task (id : ℕ)
  | typed (text : List Char)
  | toastClosed

def step (a : Action) (g : App) : Option App :=
  match a with
  | .event obj ev entries =>
    if ev = .back then none else (g.screen.hit obj).map (g.eventCb obj ev entries)
  | .task id => (g.timers.live.find? (·.1 = id)).map fun t => g.runTask t.2
  | .typed text =>
    if g.login.kb = none then none
    else if g.ta = g.login.phoneTa then some { g with phone := text }
    else some { g with password := text }
  | .toastClosed => if g.toasts = 0 then none else some { g with toasts := g.toasts - 1 }

/-- `gui_app_start`. -/
def guiAppStart : App :=
  App.loginWinCreate
    { screen := ⟨0, []⟩, toasts := 0, login := {}, main := {}, chart := {}, gauge := {},
      progress := {}, calendar := {}, chartFlag := 0, timers := .empty, phone := [], password := [],
      ta := none, stray := [] }

end DataRecorder.Gui
