/-
  The length of the path in the file browser (`GUI_APP/WIN/file_win.c`).

  The handlers of a click format "/sdcard/", the name of a folder and the names of
  the files clicked since into the 100 bytes of `path`; `sprintf` checks nothing.

  * `path_of_run`: after a run the path consists of these names;
  * `pathFits_iff`: every string formatted in a run fits, if and only if the names
    are short enough at every click.
-/
import DataRecorder.Gui.FileBrowser
import Mathlib.Data.List.Induction

namespace DataRecorder.FileBrowser

open Base

/-- The string that the handler of a click formats into `path`, whether or not the folder can be
opened afterwards. -/
def Browser.formats (s : Browser) (a : Action) : Option (List UInt8) :=
  if s.overrun then none
  else match a, s.windows with
    | .folder name, .root es :: _ => if es.contains name then some (folderPath name) else none
    | .file name, .folder _ fs _ :: _ => if fs.contains name then some (joinPath s.path name) else none
    | _, _ => none

theorem overrun_sprintf {s : Browser} {p : List UInt8} {ws : List Window} (hs : s.overrun = false)
    (h : (s.sprintf p ws).overrun = true) : pathSize < p.length + 1 := by
  unfold Browser.sprintf at h
  split_ifs at h with hp
  · exact absurd (hs.symm.trans h) (by decide)
  · omega

/-- The step leaves the buffer only through a string that its handler formats. -/
theorem formats_of_overrun {card : Card} {a : Action} {s s' : Browser} (hs : step card a s = some s')
    (h : s'.overrun = true) : ∃ p, s.formats a = some p ∧ pathSize < p.length + 1 := by
  unfold step at hs
  split_ifs at hs with hover
  have hfalse : s.overrun = false := by simpa using hover
  unfold Browser.formats
  rw [if_neg hover]
  split at hs
  · obtain ⟨es, -, rfl⟩ := Option.map_eq_some_iff.1 hs
    exact absurd h hover
  · next name es ws hws =>
    split_ifs at hs with hmem
    obtain ⟨fs, -, rfl⟩ := Option.map_eq_some_iff.1 hs
    simp only [hws, List.contains_iff_mem, if_pos hmem]
    exact ⟨_, rfl, overrun_sprintf hfalse h⟩
  · next name f fs opened ws hws =>
    split_ifs at hs with hmem
    cases hs
    simp only [hws, List.contains_iff_mem, if_pos hmem]
    exact ⟨_, rfl, overrun_sprintf hfalse h⟩
  · cases hs
    exact absurd h hover
  · cases hs

/-! ## The names clicked -/

/-- The folder clicked last, and the files clicked since. -/
def click (names : List Name) : Action → List Name
  | .folder name => [name]
  | .file name => names ++ [name]
  | .sdRoot | .back => names

def clicked (as : List Action) : List Name := as.foldl click []

/-- Names, each after a slash. -/
def slashed (names : List Name) : List UInt8 := names.flatMap fun name => ascii "/" ++ name

theorem folderPath_eq (name : Name) : folderPath name = ascii "/sdcard" ++ slashed [name] := by
  simp [folderPath, slashed, ascii]

theorem joinPath_slashed (names : List Name) (name : Name) :
    joinPath (ascii "/sdcard" ++ slashed names) name = ascii "/sdcard" ++ slashed (names ++ [name]) := by
  simp [joinPath, slashed]

/-- The path consists of the names clicked; before the first click, nothing but the root is
listed. -/
structure Follows (names : List Name) (s : Browser) : Prop where
  path : names ≠ [] → s.path = ascii "/sdcard" ++ slashed names
  listed : names = [] → ∀ w ∈ s.windows, ∃ es, w = .root es

namespace Follows

variable {names : List Name} {s s' : Browser}

theorem formats {a : Action} {p : List UInt8} (h : Follows names s) (hf : s.formats a = some p) :
    p = ascii "/sdcard" ++ slashed (click names a) := by
  unfold Browser.formats at hf
  split_ifs at hf with hover
  split at hf
  · rw [Option.ite_none_right_eq_some] at hf
    obtain ⟨-, hp⟩ := hf
    cases hp
    exact folderPath_eq _
  · next name f fs opened ws hws =>
    rw [Option.ite_none_right_eq_some] at hf
    obtain ⟨-, hp⟩ := hf
    cases hp
    have hnames : names ≠ [] := by
      intro hnil
      obtain ⟨es, hes⟩ := h.listed hnil _ (hws ▸ List.mem_cons_self)
      cases hes
    rw [h.path hnames, joinPath_slashed]
    rfl
  · cases hf

/-- A click whose string does not fit ends the run. -/
theorem step {card : Card} {a : Action} (h : Follows names s) (hs : step card a s = some s')
    (hover : s'.overrun = false) : Follows (click names a) s' := by
  obtain ⟨-, ⟨es, rfl, hws, rfl⟩ | ⟨name, es, ws, fs, rfl, hws, rfl⟩ |
    ⟨name, f, fs, opened, ws, rfl, hws, rfl⟩ | ⟨w, ws, rfl, hws, rfl⟩⟩ := step_cases hs
  · refine ⟨h.path, fun _ w hw => ?_⟩
    rw [List.mem_singleton.1 hw]
    exact ⟨es, rfl⟩
  · unfold Browser.sprintf at hover ⊢
    split_ifs at hover ⊢
    exact ⟨fun _ => folderPath_eq name, fun hnil => by cases hnil⟩
  · have hnames : names ≠ [] := by
      intro hnil
      obtain ⟨es, hes⟩ := h.listed hnil _ (hws ▸ List.mem_cons_self)
      cases hes
    unfold Browser.sprintf at hover ⊢
    split_ifs at hover ⊢
    refine ⟨fun _ => ?_, fun hnil => ?_⟩
    · rw [h.path hnames]
      exact joinPath_slashed names name
    · simp [click] at hnil
  · refine ⟨h.path, fun hnil v hv => h.listed hnil v ?_⟩
    rw [hws]
    exact List.mem_cons_of_mem _ hv

/-- From the names clicked before a run to those clicked after it. -/
theorem run {card : Card} {as : List Action} (h : Follows names s) (hr : run (FileBrowser.step card) as s = some s')
    (hover : s'.overrun = false) : Follows (as.foldl click names) s' := by
  induction as generalizing names s with
  | nil => cases hr; exact h
  | cons a as ih =>
    obtain ⟨t, hs, hr⟩ := run_cons_some.1 hr
    refine ih (h.step hs ?_) hr
    -- an overrun in the middle leaves no step
    cases as with
    | nil => cases hr; exact hover
    | cons b bs =>
      obtain ⟨u, hu, -⟩ := run_cons_some.1 hr
      exact (step_cases hu).1

end Follows

/-- **The path after a run.** -/
theorem path_of_run {card : Card} {as : List Action} {s : Browser}
    (hr : run (step card) as .start = some s) (hover : s.overrun = false) : Follows (clicked as) s :=
  Follows.run ⟨fun h => absurd rfl h, fun _ _ hw => by cases hw⟩ hr hover

/-! ## Which strings fit -/

/-- After the actions `as`, the handler of the click `a` formats `p`. -/
def Formats (card : Card) (as : List Action) (a : Action) (p : List UInt8) : Prop :=
  ∃ s, run (step card) as .start = some s ∧ s.formats a = some p

/-- Every string formatted in the run fits into `path`, with its terminator. -/
def PathFits (card : Card) (as : List Action) : Prop :=
  ∀ ys a p, ys ++ [a] <+: as → Formats card ys a p → p.length + 1 ≤ pathSize

theorem formats_length {card : Card} {as : List Action} {a : Action} {p : List UInt8}
    (h : Formats card as a p) : p.length = 7 + (slashed (clicked (as ++ [a]))).length := by
  obtain ⟨s, hr, hf⟩ := h
  have hover : s.overrun = false := by
    cases hs : s.overrun with
    | false => rfl
    | true => simp [Browser.formats, hs] at hf
  have hclick : clicked (as ++ [a]) = click (clicked as) a := by simp [clicked]
  rw [(path_of_run hr hover).formats hf, List.length_append, hclick]
  rfl

/-- **The path buffer** is left by no string, if and only if at every click on a folder or a file
the names clicked, each with a slash, have at most 92 characters. -/
theorem pathFits_iff (card : Card) (as : List Action) : PathFits card as ↔
    ∀ ys a, ys ++ [a] <+: as → (∃ p, Formats card ys a p) →
      (slashed (clicked (ys ++ [a]))).length ≤ 92 := by
  constructor
  · rintro h ys a hpre ⟨p, hp⟩
    have hfit := h ys a p hpre hp
    rw [formats_length hp, pathSize] at hfit
    omega
  · intro h ys a p hpre hp
    have hshort := h ys a hpre ⟨p, hp⟩
    rw [formats_length hp, pathSize]
    omega

/-- Strings that fit leave the buffer intact. -/
theorem not_overrun_of_pathFits {card : Card} {as : List Action} {s : Browser} (h : PathFits card as)
    (hr : run (step card) as .start = some s) : s.overrun = false := by
  cases as using List.reverseRecOn with
  | nil =>
    cases hr
    rfl
  | append_singleton as a =>
    obtain ⟨t, ht, hs⟩ := run_snoc_some.1 hr
    by_contra hover
    obtain ⟨p, hp, hlong⟩ := formats_of_overrun hs (by simpa using hover)
    have := h as a p (List.prefix_refl _) ⟨t, ht, hp⟩
    omega

/-! ## A folder with a long name -/

/-- No entry has more than 255 characters, as in a directory entry. -/
def NamesFit (card : Card) : Prop := ∀ p es, card p = some es → ∀ name ∈ es, name.length ≤ 255

/-- The card holds the folders `names`, all empty. -/
def cardOf (names : List Name) : Card := fun p => if p = ascii "/sdcard" then some names else some []

theorem namesFit_cardOf {names : List Name} (h : ∀ name ∈ names, name.length ≤ 255) :
    NamesFit (cardOf names) := by
  intro p es hp
  unfold cardOf at hp
  split_ifs at hp
  · cases hp
    exact h
  · cases hp
    simp

theorem formats_cardOf (name : Name) :
    Formats (cardOf [name]) [.sdRoot] (.folder name) (folderPath name) := by
  refine ⟨⟨[], [.root [name]], false⟩, rfl, ?_⟩
  simp [Browser.formats]

/-- A folder whose name has 200 characters is clicked. -/
theorem not_pathFits : ¬ ∀ card as, NamesFit card → PathFits card as := by
  intro h
  obtain ⟨name, hname⟩ : ∃ name : Name, name.length = 200 := ⟨List.replicate 200 97, List.length_replicate⟩
  have hfits := h (cardOf [name]) [.sdRoot, .folder name]
    (namesFit_cardOf (by simp [hname]))
  have := hfits [.sdRoot] _ _ (List.prefix_refl _) (formats_cardOf name)
  rw [folderPath, List.length_append, hname] at this
  exact absurd this (by decide)

end DataRecorder.FileBrowser
