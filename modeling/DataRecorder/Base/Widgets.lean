/-
  Windows of widgets, stacked on a screen.

  An object of the screen is a window, or a widget inside one; it is named by the
  serial number of its window and its number in it, `0` for the window itself.
  Names are not used twice: `Screen.place` numbers windows in the order they are
  created in, `Screen.add` the widgets added to a window later on.  `Screen.del`
  deletes an object with all that lies in it.  A window may cover those under it;
  `Screen.hit` is the callback of an object that no window covers.

  * `Fresh`: the windows stand in the order of their creation, the newest first; kept
    by `place`, `add` and `del`;
  * `del_window`, `del_widget`, `add_widget`: what the operations do to one window;
  * `hit_spec`: who can be hit.
-/
import Mathlib.Data.List.Pairwise
import Mathlib.Tactic.Common

namespace Base

structure Obj where
  win : ℕ
  ix : ℕ
  deriving DecidableEq

structure Widget (γ : Type*) where
  ix : ℕ
  /-- the objects it lies in, the nearest first -/
  parents : List ℕ
  cb : Option γ
  deriving DecidableEq

structure Window (κ γ : Type*) where
  serial : ℕ
  kind : κ
  /-- whether it covers the screen -/
  full : Bool
  /-- how many objects have been created in it -/
  made : ℕ
  widgets : List (Widget γ)

/-- The windows of a screen, the newest first. -/
structure Screen (κ γ : Type*) where
  next : ℕ
  windows : List (Window κ γ)

variable {κ γ : Type*}

/-- The part of the windows that no window covers. -/
def exposed : List (Window κ γ) → List (Window κ γ)
  | [] => []
  | w :: ws => if w.full then [w] else w :: exposed ws

def Window.find? (w : Window κ γ) (i : ℕ) : Option (Widget γ) := w.widgets.find? (·.ix = i)

/-- Delete the widget `i` with all that lies in it. -/
def Window.del (w : Window κ γ) (i : ℕ) : Window κ γ :=
  { w with widgets := w.widgets.filter fun x => x.ix ≠ i ∧ i ∉ x.parents }

/-- Add a widget that lies in the widget `i`. -/
def Window.add (w : Window κ γ) (i : ℕ) (cb : Option γ) : Window κ γ :=
  { w with
    made := w.made + 1
    widgets := w.widgets ++ [⟨w.made, i :: (w.find? i).elim [] (·.parents), cb⟩] }

/-- Delete a widget added after those of `l`, all of them numbered below `n`. -/
theorem Window.del_last (s : ℕ) (k : κ) (full : Bool) (made : ℕ) {l : List (Widget γ)} {n : ℕ}
    (hl : ∀ x ∈ l, x.ix < n ∧ ∀ j ∈ x.parents, j < n) {i : ℕ} (hi : n ≤ i) (parents : List ℕ)
    (cb : Option γ) :
    (⟨s, k, full, made, l ++ [⟨i, parents, cb⟩]⟩ : Window κ γ).del i = ⟨s, k, full, made, l⟩ := by
  have hkeep : l.filter (fun x => decide (x.ix ≠ i ∧ i ∉ x.parents)) = l :=
    List.filter_eq_self.2 fun x hx => decide_eq_true
      ⟨Nat.ne_of_lt (Nat.lt_of_lt_of_le (hl x hx).1 hi),
        fun hp => absurd ((hl x hx).2 i hp) (Nat.not_lt.2 hi)⟩
  have hlast : [(⟨i, parents, cb⟩ : Widget γ)].filter
      (fun x => decide (x.ix ≠ i ∧ i ∉ x.parents)) = [] := by simp
  rw [Window.del, List.filter_append, hkeep, hlast, List.append_nil]

/-- Find a widget added after those of `l`, all of them numbered below `n`. -/
theorem Window.find_last (s : ℕ) (k : κ) (full : Bool) (made : ℕ) {l : List (Widget γ)} {n : ℕ}
    (hl : ∀ x ∈ l, x.ix < n) {i : ℕ} (hi : n ≤ i) (parents : List ℕ) (cb : Option γ) :
    (⟨s, k, full, made, l ++ [⟨i, parents, cb⟩]⟩ : Window κ γ).find? i = some ⟨i, parents, cb⟩ := by
  have hno : l.find? (·.ix = i) = none :=
    List.find?_eq_none.2 fun x hx => by simpa using Nat.ne_of_lt (Nat.lt_of_lt_of_le (hl x hx) hi)
  simp [Window.find?, List.find?_append, hno]

namespace Screen

variable (S : Screen κ γ)

def window? (s : ℕ) : Option (Window κ γ) := S.windows.find? (·.serial = s)

def widget? (o : Obj) : Option (Widget γ) := (S.window? o.win).bind (·.find? o.ix)

def alive (o : Obj) : Bool := (S.widget? o).isSome

def callback (o : Obj) : Option γ := (S.widget? o).bind (·.cb)

/-- The object that `o` lies in. -/
def parent (o : Obj) : Obj := ⟨o.win, ((S.widget? o).elim [] (·.parents)).headD 0⟩

/-- The callback of an object that no window covers. -/
def hit (o : Obj) : Option γ :=
  (((exposed S.windows).find? (·.serial = o.win)).bind (·.find? o.ix)).bind (·.cb)

def place (kind : κ) (full : Bool) (widgets : List (Widget γ)) : Screen κ γ where
  next := S.next + 1
  windows := ⟨S.next, kind, full, widgets.length, widgets⟩ :: S.windows

/-- The name of the next object added to the window `s`. -/
def fresh (s : ℕ) : Obj := ⟨s, (S.window? s).elim 0 (·.made)⟩

/-- Add a widget that lies in `p`. -/
def add (p : Obj) (cb : Option γ) : Screen κ γ :=
  { S with windows := S.windows.map fun w => if w.serial = p.win then w.add p.ix cb else w }

/-- Delete an object with all that lies in it. -/
def del (o : Obj) : Screen κ γ :=
  { S with
    windows :=
      if o.ix = 0 then S.windows.filter (·.serial ≠ o.win)
      else S.windows.map fun w => if w.serial = o.win then w.del o.ix else w }

/-- The windows stand in the order of their creation. -/
structure Fresh : Prop where
  order : S.windows.Pairwise fun w w' => w'.serial < w.serial
  next : ∀ w ∈ S.windows, w.serial < S.next

variable {S}

/-! ## Operations keep the order -/

theorem Fresh.place {kind : κ} {full : Bool} {widgets : List (Widget γ)} (h : S.Fresh) :
    (S.place kind full widgets).Fresh where
  order := List.pairwise_cons.2 ⟨h.next, h.order⟩
  next w hw := by
    rcases List.mem_cons.1 hw with rfl | hw
    · exact Nat.lt_succ_self _
    · exact Nat.lt_succ_of_lt (h.next w hw)

theorem Fresh.map {f : Window κ γ → Window κ γ} (hf : ∀ w, (f w).serial = w.serial) (h : S.Fresh) :
    Fresh { S with windows := S.windows.map f } where
  order := List.pairwise_map.2 (h.order.imp fun hw => by rwa [hf, hf])
  next w hw := by
    obtain ⟨w', hw', rfl⟩ := List.mem_map.1 hw
    rw [hf]
    exact h.next w' hw'

theorem Fresh.add {p : Obj} {cb : Option γ} (h : S.Fresh) : (S.add p cb).Fresh :=
  h.map fun w => by split_ifs <;> rfl

theorem Fresh.del {o : Obj} (h : S.Fresh) : (S.del o).Fresh := by
  unfold Screen.del
  split_ifs
  · exact ⟨h.order.filter _, fun w hw => h.next w (List.mem_filter.1 hw).1⟩
  · exact h.map fun w => by split_ifs <;> rfl

/-! ## One window among the others -/

variable {w : Window κ γ} {a b : List (Window κ γ)}

theorem Fresh.serial_ne (h : S.Fresh) (hw : S.windows = a ++ w :: b) {v : Window κ γ}
    (hv : v ∈ a ++ b) : v.serial ≠ w.serial := by
  have ho := h.order
  rw [hw, List.pairwise_append, List.pairwise_cons] at ho
  obtain ⟨-, ⟨h₂, -⟩, h₁⟩ := ho
  rcases List.mem_append.1 hv with hv | hv
  · exact Nat.ne_of_gt (h₁ v hv w List.mem_cons_self)
  · exact Nat.ne_of_lt (h₂ v hv)

theorem Fresh.window? (h : S.Fresh) (hw : w ∈ S.windows) : S.window? w.serial = some w := by
  obtain ⟨a, b, e⟩ := List.append_of_mem hw
  have h₁ : a.find? (·.serial = w.serial) = none :=
    List.find?_eq_none.2 fun v hv => by simpa using h.serial_ne e (List.mem_append_left _ hv)
  rw [Screen.window?, e, List.find?_append, h₁]
  simp

theorem Fresh.widget? (h : S.Fresh) (hw : w ∈ S.windows) (i : ℕ) :
    S.widget? ⟨w.serial, i⟩ = w.find? i := by
  rw [Screen.widget?, h.window? hw, Option.bind_some]

theorem Fresh.alive (h : S.Fresh) (hw : w ∈ S.windows) (i : ℕ) :
    S.alive ⟨w.serial, i⟩ = (w.find? i).isSome := by
  rw [Screen.alive, h.widget? hw]

theorem Fresh.parent (h : S.Fresh) (hw : w ∈ S.windows) {i : ℕ} {x : Widget γ}
    (hx : w.find? i = some x) : S.parent ⟨w.serial, i⟩ = ⟨w.serial, x.parents.headD 0⟩ := by
  rw [Screen.parent, h.widget? hw, hx, Option.elim_some]

theorem Fresh.callback (h : S.Fresh) (hw : w ∈ S.windows) {i : ℕ} {x : Widget γ}
    (hx : w.find? i = some x) : S.callback ⟨w.serial, i⟩ = x.cb := by
  rw [Screen.callback, h.widget? hw, hx, Option.bind_some]

theorem Fresh.fresh (h : S.Fresh) (hw : w ∈ S.windows) : S.fresh w.serial = ⟨w.serial, w.made⟩ := by
  rw [Screen.fresh, h.window? hw, Option.elim_some]

/-- An update of the window `s` alone. -/
theorem Fresh.map_one (h : S.Fresh) (hw : S.windows = a ++ w :: b) (f : Window κ γ → Window κ γ) :
    (S.windows.map fun v => if v.serial = w.serial then f v else v) = a ++ f w :: b := by
  have hrest : ∀ v ∈ a ++ b, (if v.serial = w.serial then f v else v) = v :=
    fun v hv => if_neg (h.serial_ne hw hv)
  rw [hw, List.map_append, List.map_cons, if_pos rfl,
    List.map_congr_left fun v hv => hrest v (List.mem_append_left _ hv),
    List.map_congr_left fun v hv => hrest v (List.mem_append_right _ hv)]
  simp

/-- **Deleting a window** leaves the others. -/
theorem Fresh.del_window (h : S.Fresh) (hw : S.windows = a ++ w :: b) :
    (S.del ⟨w.serial, 0⟩).windows = a ++ b := by
  have hrest : ∀ v ∈ a ++ b, (v.serial ≠ w.serial : Bool) = true :=
    fun v hv => by simpa using h.serial_ne hw hv
  have h₁ := List.filter_eq_self.2 fun v hv => hrest v (List.mem_append_left _ hv)
  have h₂ := List.filter_eq_self.2 fun v hv => hrest v (List.mem_append_right _ hv)
  simp only [Screen.del, if_pos, hw, List.filter_append, h₁]
  rw [List.filter_cons_of_neg (by simp), h₂]

/-- **Deleting a widget** changes its window only. -/
theorem Fresh.del_widget (h : S.Fresh) (hw : S.windows = a ++ w :: b) {i : ℕ} (hi : i ≠ 0) :
    (S.del ⟨w.serial, i⟩).windows = a ++ w.del i :: b := by
  simp only [Screen.del, if_neg hi]
  exact h.map_one hw (·.del i)

/-- **Adding a widget** changes its window only. -/
theorem Fresh.add_widget (h : S.Fresh) (hw : S.windows = a ++ w :: b) (i : ℕ) (cb : Option γ) :
    (S.add ⟨w.serial, i⟩ cb).windows = a ++ w.add i cb :: b :=
  h.map_one hw (·.add i cb)

/-! ## Who is hit -/

theorem exposed_append (hl : ∀ v ∈ a, v.full = false) (hw : w.full = true) :
    exposed (a ++ w :: b) = a ++ [w] := by
  induction a with
  | nil => simp [exposed, hw]
  | cons v l ih =>
    rw [List.cons_append, exposed, if_neg (by simp [hl v List.mem_cons_self]),
      ih fun u hu => hl u (List.mem_cons_of_mem _ hu), List.cons_append]

/-- Who is hit is a widget with a callback in a window that none covers. -/
theorem hit_spec {o : Obj} {cb : γ} (h : S.hit o = some cb) :
    ∃ v ∈ exposed S.windows, o.win = v.serial ∧
      ∃ x, v.find? o.ix = some x ∧ x ∈ v.widgets ∧ x.ix = o.ix ∧ x.cb = some cb := by
  obtain ⟨x, hx, hcb⟩ := Option.bind_eq_some_iff.1 h
  obtain ⟨v, hv, hx⟩ := Option.bind_eq_some_iff.1 hx
  refine ⟨v, List.mem_of_find?_eq_some hv, ?_, x, hx, List.mem_of_find?_eq_some hx, ?_, hcb⟩
  · have hs := List.find?_some hv
    exact (by simpa using hs : v.serial = o.win).symm
  · simpa using List.find?_some hx

theorem mem_of_mem_exposed {v : Window κ γ} : ∀ {l : List (Window κ γ)}, v ∈ exposed l → v ∈ l
  | [], h => h
  | u :: l, h => by
    rw [exposed] at h
    split_ifs at h
    · exact List.mem_cons.2 (.inl (List.mem_singleton.1 h))
    · rcases List.mem_cons.1 h with rfl | h
      · exact List.mem_cons_self
      · exact List.mem_cons_of_mem _ (mem_of_mem_exposed h)

/-- In a window that none covers, every widget with a callback can be hit. -/
theorem Fresh.hit (h : S.Fresh) (hw : w ∈ exposed S.windows) (i : ℕ) :
    S.hit ⟨w.serial, i⟩ = (w.find? i).bind (·.cb) := by
  have hfind : (exposed S.windows).find? (·.serial = w.serial) = some w := by
    have hsome : ((exposed S.windows).find? (·.serial = w.serial)).isSome = true :=
      List.find?_isSome.2 ⟨w, hw, by simp⟩
    obtain ⟨v, hv⟩ := Option.isSome_iff_exists.1 hsome
    have hs : v.serial = w.serial := by simpa using List.find?_some hv
    have hvw := h.window? (mem_of_mem_exposed (List.mem_of_find?_eq_some hv))
    rw [hs, h.window? (mem_of_mem_exposed hw)] at hvw
    rw [hv, hvw]
  rw [Screen.hit, hfind, Option.bind_some]

end Screen

end Base
