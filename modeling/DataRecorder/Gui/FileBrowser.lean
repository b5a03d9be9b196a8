/-
  The file browser (`GUI_APP/WIN/file_win.c`).

  The SD root is listed in "Folder1", a folder in "Folder2", a file in "text"; each
  window covers the one it was opened from until its Back is pressed.  The path is
  one buffer: a click on a folder replaces it, a click on a file appends to it, and
  Back leaves it as it is.

  * `opens_iff`: the file that is clicked is the one that is opened, if and only if
    it is the first that is opened from the listing shown.
-/
import DataRecorder.Base.Decimal
import DataRecorder.Base.System

namespace DataRecorder.FileBrowser

open Base

abbrev Name := List UInt8

/-- What `opendir` and `readdir` give for a path. -/
abbrev Card := List UInt8 → Option (List Name)

inductive Window where
  /-- "Folder1" -/
  | root (entries : List Name)
  /-- "Folder2" of the folder `name`; `opened` are the files opened from it, the last first -/
  | folder (name : Name) (entries opened : List Name)
  /-- "text", with the path passed to `open` -/
  | text (path : List UInt8)
  deriving DecidableEq

/-- The string in `path`, the windows, the topmost first, and whether a `sprintf` has left the
buffer. -/
structure Browser where
  path : List UInt8
  windows : List Window
  overrun : Bool

inductive Action where
  /-- the entry "File" of the main window: `file_win_create` -/
  | sdRoot
  /-- a click on an entry of "Folder1": `event_handler` -/
  | folder (name : Name)
  /-- a click on an entry of "Folder2": `event_handler1` -/
  | file (name : Name)
  | back

def pathSize : ℕ := 100

/-- `sprintf(path, ...)` of a string, and the window opened after it. -/
def Browser.sprintf (s : Browser) (p : List UInt8) (ws : List Window) : Browser :=
  if p.length < pathSize then { s with path := p, windows := ws } else { s with overrun := true }

/-- `sprintf(path, "/sdcard/%s", name)`. -/
def folderPath (name : Name) : List UInt8 := ascii "/sdcard/" ++ name

/-- `sprintf(path, "%s/%s", path, name)`: the string is copied onto itself. -/
def joinPath (path : List UInt8) (name : Name) : List UInt8 := path ++ ascii "/" ++ name

def step (card : Card) (a : Action) (s : Browser) : Option Browser :=
  if s.overrun then none
  else match a, s.windows with
    | .sdRoot, [] => (card (ascii "/sdcard")).map fun es => { s with windows := [.root es] }
    | .folder name, .root es :: ws =>
      if name ∈ es then
        (card (folderPath name)).map fun fs =>
          s.sprintf (folderPath name) (.folder name fs [] :: .root es :: ws)
      else none
    | .file name, .folder f fs opened :: ws =>
      if name ∈ fs then
        some (s.sprintf (joinPath s.path name)
          (.text (joinPath s.path name) :: .folder f fs (name :: opened) :: ws))
      else none
    | .back, _ :: ws => some { s with windows := ws }
    | _, _ => none

def Browser.start : Browser := ⟨[], [], false⟩

/-- The text window shown has the file at `p`. -/
def Browser.Opens (s : Browser) (p : List UInt8) : Prop := s.windows.head? = some (.text p)

instance (s : Browser) (p : List UInt8) : Decidable (s.Opens p) :=
  inferInstanceAs (Decidable (_ = _))

/-! ## The path along a run -/

/-- The path after a click on the folder `f` and clicks on the files `opened`. -/
def trail (f : Name) : List Name → List UInt8
  | [] => folderPath f
  | name :: opened => joinPath (trail f opened) name

/-- What an action does. -/
theorem step_cases {card : Card} {a : Action} {s s' : Browser} (h : step card a s = some s') :
    s.overrun = false ∧
      ((∃ es, a = .sdRoot ∧ s.windows = [] ∧ s' = { s with windows := [.root es] }) ∨
      (∃ name es ws fs, a = .folder name ∧ s.windows = .root es :: ws ∧
        s' = s.sprintf (folderPath name) (.folder name fs [] :: .root es :: ws)) ∨
      (∃ name f fs opened ws, a = .file name ∧ s.windows = .folder f fs opened :: ws ∧
        s' = s.sprintf (joinPath s.path name)
          (.text (joinPath s.path name) :: .folder f fs (name :: opened) :: ws)) ∨
      (∃ w ws, a = .back ∧ s.windows = w :: ws ∧ s' = { s with windows := ws })) := by
  unfold step at h
  split_ifs at h with hover
  refine ⟨by simpa using hover, ?_⟩
  split at h
  · next hws =>
    obtain ⟨es, -, rfl⟩ := Option.map_eq_some_iff.1 h
    exact .inl ⟨es, rfl, hws, rfl⟩
  · next name es ws hws =>
    split_ifs at h
    obtain ⟨fs, -, rfl⟩ := Option.map_eq_some_iff.1 h
    exact .inr (.inl ⟨name, es, ws, fs, rfl, hws, rfl⟩)
  · next name f fs opened ws hws =>
    split_ifs at h
    cases h
    exact .inr (.inr (.inl ⟨name, f, fs, opened, ws, rfl, hws, rfl⟩))
  · next w ws hws =>
    cases h
    exact .inr (.inr (.inr ⟨w, ws, rfl, hws, rfl⟩))
  · cases h

/-- The windows are stacked in order, and the path is the trail of the listing. -/
inductive Tracks : List UInt8 → List Window → Prop
  | main (path : List UInt8) : Tracks path []
  | root (path : List UInt8) (es : List Name) : Tracks path [.root es]
  | folder (f : Name) (fs opened es : List Name) :
      Tracks (trail f opened) [.folder f fs opened, .root es]
  | text (p : List UInt8) (f : Name) (fs opened es : List Name) :
      Tracks (trail f opened) [.text p, .folder f fs opened, .root es]

/-- A string that does not fit changes neither the path nor the windows. -/
theorem Tracks.sprintf {s : Browser} {p : List UInt8} {ws : List Window}
    (h : Tracks s.path s.windows) (hp : Tracks p ws) :
    Tracks (s.sprintf p ws).path (s.sprintf p ws).windows := by
  unfold Browser.sprintf
  split_ifs
  · exact hp
  · exact h

theorem Tracks.step {card : Card} {a : Action} {s s' : Browser} (h : Tracks s.path s.windows)
    (hs : step card a s = some s') : Tracks s'.path s'.windows := by
  obtain ⟨-, ⟨es, rfl, hws, rfl⟩ | ⟨name, es, ws, fs, rfl, hws, rfl⟩ |
    ⟨name, f, fs, opened, ws, rfl, hws, rfl⟩ | ⟨w, ws, rfl, hws, rfl⟩⟩ := step_cases hs
  · exact .root _ _
  · refine h.sprintf ?_
    rw [hws] at h
    generalize s.path = path at h
    cases h
    exact .folder name fs [] es
  · refine h.sprintf ?_
    rw [hws] at h
    generalize s.path = path at h ⊢
    cases h
    exact .text _ f fs (name :: opened) _
  · rw [hws] at h
    generalize s.path = path at h ⊢
    cases h with
    | root => exact .main _
    | folder f fs opened es => exact .root _ _
    | text p f fs opened es => exact .folder f fs opened es

theorem trail_length (f : Name) (opened : List Name) :
    (folderPath f).length + opened.length ≤ (trail f opened).length := by
  induction opened with
  | nil => exact le_rfl
  | cons name opened ih =>
    simp only [trail, joinPath, List.length_append, List.length_cons]
    have : (ascii "/").length = 1 := by decide
    omega

/-- A trail is the path of the folder if no file was opened. -/
theorem trail_eq_iff {f : Name} {opened : List Name} : trail f opened = folderPath f ↔ opened = [] := by
  constructor
  · intro h
    have := trail_length f opened
    rw [h] at this
    exact List.length_eq_zero_iff.1 (by omega)
  · rintro rfl
    rfl

theorem joinPath_inj {p q : List UInt8} {name : Name} : joinPath p name = joinPath q name ↔ p = q := by
  simp [joinPath]

/-- **A click opens the file clicked**, if and only if no file was opened from the listing before. -/
theorem opens_iff {card : Card} {as : List Action} {s s' : Browser} {f name : Name}
    {fs opened : List Name} {ws : List Window} (hrun : run (step card) as .start = some s)
    (hs : s.windows = .folder f fs opened :: ws) (hstep : step card (.file name) s = some s')
    (hfits : (joinPath (folderPath f) name).length < pathSize) :
    s'.Opens (joinPath (folderPath f) name) ↔ opened = [] := by
  have htracks : Tracks s.path s.windows := run_inv (fun _ _ _ => Tracks.step) (.main _) hrun
  have hpath : s.path = trail f opened := by
    rw [hs] at htracks
    generalize s.path = path at htracks
    cases htracks
    rfl
  obtain ⟨-, ⟨_, ha, -⟩ | ⟨_, _, _, _, ha, -⟩ | ⟨_, _, _, _, _, ha, hws, rfl⟩ | ⟨_, _, ha, -⟩⟩ :=
    step_cases hstep
  · cases ha
  · cases ha
  · cases ha
    obtain ⟨⟨rfl, rfl, rfl⟩, rfl⟩ : (_ ∧ _ ∧ _) ∧ _ := by simpa using hs.symm.trans hws
    rw [Browser.sprintf, hpath]
    constructor
    · intro hopens
      split_ifs at hopens
      · exact trail_eq_iff.1 (joinPath_inj.1 (by simpa [Browser.Opens] using hopens))
      · simp [Browser.Opens, hs] at hopens
    · rintro rfl
      rw [if_pos (show (joinPath (trail f []) name).length < pathSize from hfits)]
      rfl
  · cases ha

/-! ## Two files of one folder -/

def cardAB : Card := fun p =>
  if p = ascii "/sdcard" then some [ascii "log"]
  else if p = ascii "/sdcard/log" then some [ascii "a", ascii "b"]
  else none

/-- The folder "log" is listed. -/
def logListed (path : List UInt8) (opened : List Name) : Browser :=
  ⟨path, [.folder (ascii "log") [ascii "a", ascii "b"] opened, .root [ascii "log"]], false⟩

theorem opens_first : ∃ s', step cardAB (.file (ascii "b")) (logListed (ascii "/sdcard/log") []) = some s' ∧
    s'.Opens (joinPath (folderPath (ascii "log")) (ascii "b")) := by
  have hrun : run (step cardAB) [.sdRoot, .folder (ascii "log")] .start =
      some (logListed (ascii "/sdcard/log") []) := rfl
  exact ⟨_, rfl, (opens_iff hrun rfl rfl (by decide)).2 rfl⟩

/-- The file `b` is clicked after the file `a`. -/
theorem not_opens : ¬ ∀ (card : Card) (as : List Action) (s s' : Browser) (f name : Name)
    (fs opened : List Name) (ws : List Window), run (step card) as .start = some s →
    s.windows = .folder f fs opened :: ws → step card (.file name) s = some s' →
    (joinPath (folderPath f) name).length < pathSize → s'.Opens (joinPath (folderPath f) name) := by
  intro h
  have hrun : run (step cardAB) [.sdRoot, .folder (ascii "log"), .file (ascii "a"), .back] .start =
      some (logListed (ascii "/sdcard/log/a") [ascii "a"]) := rfl
  exact absurd (h _ _ _ _ (ascii "log") (ascii "b") _ _ _ hrun rfl rfl (by decide)) (by decide)

end DataRecorder.FileBrowser
