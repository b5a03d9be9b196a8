/-
  The capacitive touch screen (`HARDWARE/TOUCH/gt9147.c`).

  `GT9147_Scan` asks the controller at every call or at every tenth, and takes the
  first of the points it reports, unless this one is beyond the screen.  A
  coordinate that equals the width or the height is not taken to be beyond it, and
  a second point, shown in place of the first, is not tested.

  * `gt9147Scan_reports`: which point a report shows;
  * `gt9147Scan_quiet`: another call shows what was shown, or nothing;
  * `staysOnScreen_iff`: what is shown stays on the screen along a run, if and only
    if every report of the run is `Placed`.
-/
import Mathlib.Data.Fin.VecNotation
import DataRecorder.Touch.Adjust

namespace DataRecorder.Touch

/-! ## The controller and the driver -/

/-- The screen, and `tp_dev.touchtype`, whose lowest bit tells a landscape screen. -/
structure GtPanel extends Lcd where
  touchtype : UInt8
  width_le : width.toNat ≤ 800

/-- The fields of `tp_dev` that a scan works on, and its static counter. -/
structure GtDev where
  x : Fin 5 → UInt16
  y : Fin 5 → UInt16
  sta : UInt8
  t : UInt8

/-- What a call of `GT9147_Scan` meets: its argument, the status register of the controller, and
the coordinate registers of its five points. -/
structure GtCall where
  mode : UInt8
  gstid : UInt8
  tpx : Fin 5 → Fin 4 → UInt8

/-- The returned value, whether the status register was cleared, and `tp_dev` afterwards. -/
structure GtScanned where
  res : UInt8
  cleared : Bool
  dev : GtDev

def gtWord (low high : UInt8) : UInt16 := (high.toUInt16 <<< 8) + low.toUInt16

def Landscape (touchtype : UInt8) : Prop := touchtype &&& 0x01 ≠ 0

instance (touchtype : UInt8) : Decidable (Landscape touchtype) := inferInstanceAs (Decidable (_ ≠ _))

/-- The coordinates that four registers stand for. -/
def gtPoint (touchtype : UInt8) (buf : Fin 4 → UInt8) : Point :=
  if Landscape touchtype then (800 - gtWord (buf 2) (buf 3), gtWord (buf 0) (buf 1))
  else (gtWord (buf 0) (buf 1), gtWord (buf 2) (buf 3))

/-- Bit `i` of the status. -/
def GtValid (sta : UInt8) (i : Fin 5) : Prop := sta &&& (1 <<< UInt8.ofNat i) ≠ 0

instance (sta : UInt8) (i : Fin 5) : Decidable (GtValid sta i) := inferInstanceAs (Decidable (_ ≠ _))

/-- Point `i` is read if it is valid. -/
def gtRead (p : GtPanel) (tpx : Fin 5 → Fin 4 → UInt8) (d : GtDev) (i : Fin 5) : GtDev :=
  if GtValid d.sta i then
    { d with
      x := Function.update d.x i (gtPoint p.touchtype (tpx i)).1
      y := Function.update d.y i (gtPoint p.touchtype (tpx i)).2 }
  else d

/-- As many bits as there are points, below the two flags. -/
def gtSta (n : UInt8) : UInt8 := ~~~(0xFF <<< n) ||| tpPresDown ||| tpCathPres

/-- The coordinates of point `i` become those of point 0. -/
def GtDev.restore (d : GtDev) (i : Fin 5) : GtDev :=
  { d with x := Function.update d.x 0 (d.x i), y := Function.update d.y 0 (d.y i) }

/-- The points that are reported are read.  Point 4 keeps the old point 0, unless it is read. -/
def gtLoad (p : GtPanel) (tpx : Fin 5 → Fin 4 → UInt8) (mode : UInt8) (d : GtDev) : GtDev :=
  (List.finRange 5).foldl (gtRead p tpx)
    { d with
      sta := gtSta (mode &&& 0xF)
      x := Function.update d.x 4 (d.x 0)
      y := Function.update d.y 4 (d.y 0) }

/-- What a scan does with a report, and the value of `mode` afterwards. -/
def gtTake (p : GtPanel) (tpx : Fin 5 → Fin 4 → UInt8) (mode : UInt8) (d : GtDev) : UInt8 × GtDev :=
  let tempsta := d.sta
  let d := gtLoad p tpx mode d
  if d.x 0 > p.width ∨ d.y 0 > p.height then
    if mode &&& 0xF > 1 then (mode, { d.restore 1 with t := 0 })
    else (0x80, { d.restore 4 with sta := tempsta })
  else (mode, { d with t := 0 })

/-- No point is touched: the flag is cleared first, the coordinates at the next such call. -/
def gtRelease (mode : UInt8) (d : GtDev) : GtDev :=
  if mode &&& 0x8F = 0x80 then
    if d.sta &&& tpPresDown ≠ 0 then { d with sta := d.sta &&& ~~~((1 : UInt8) <<< 7) }
    else { d with
      x := Function.update d.x 0 0xffff
      y := Function.update d.y 0 0xffff
      sta := d.sta &&& 0xE0 }
  else d

/-- The controller reports one to five points. -/
def HasPoints (mode : UInt8) : Prop := mode &&& 0xF ≠ 0 ∧ mode &&& 0xF < 6

instance (mode : UInt8) : Decidable (HasPoints mode) := inferInstanceAs (Decidable (_ ∧ _))

/-- The next call asks the controller. -/
def GtDev.Polls (d : GtDev) : Prop := (d.t + 1) % 10 = 0 ∨ d.t + 1 < 10

instance (d : GtDev) : Decidable d.Polls := inferInstanceAs (Decidable (_ ∨ _))

/-- The part of a scan that asks the controller. -/
def gtPoll (p : GtPanel) (c : GtCall) (d : GtDev) : UInt8 × GtDev :=
  if ¬ d.Polls then (c.mode, { d with t := d.t + 1 })
  else if HasPoints c.gstid then gtTake p c.tpx c.gstid { d with t := d.t + 1 }
  else (c.gstid, { d with t := d.t + 1 })

/-- `GT9147_Scan`. -/
def gt9147Scan (p : GtPanel) (c : GtCall) (d : GtDev) : GtScanned :=
  let r := gtPoll p c d
  let d' := gtRelease r.1 r.2
  { res := if d.Polls ∧ HasPoints c.gstid then 1 else 0
    cleared := d.Polls ∧ c.gstid &&& 0x80 ≠ 0 ∧ c.gstid &&& 0xF < 6
    dev := if d'.t > 240 then { d' with t := 10 } else d' }

/-! ## The points of a report -/

section
variable (p : GtPanel) (tpx : Fin 5 → Fin 4 → UInt8)

/-- The valid points are those reported, and the status says that the screen is touched. -/
theorem gtSta_spec {mode : UInt8} (h : HasPoints mode) :
    (∀ i, GtValid (gtSta (mode &&& 0xF)) i ↔ i.val < (mode &&& 0xF).toNat) ∧
      gtSta (mode &&& 0xF) &&& tpPresDown ≠ 0 := by
  have hall : ∀ n : Fin 6, n.val ≠ 0 → (∀ i, GtValid (gtSta (UInt8.ofNat n)) i ↔ i.val < n.val) ∧
      gtSta (UInt8.ofNat n) &&& tpPresDown ≠ 0 := by
    decide +kernel
  have hlt : (mode &&& 0xF).toNat < 6 := UInt8.lt_iff_toNat_lt.1 h.2
  have hspec := hall ⟨_, hlt⟩ fun h0 => h.1 (UInt8.toNat_inj.1 h0)
  rwa [UInt8.ofNat_toNat] at hspec

/-- The loop over the points reads those that are valid. -/
theorem foldl_gtRead (l : List (Fin 5)) (d : GtDev) : l.foldl (gtRead p tpx) d =
    { d with
      x := fun i => if i ∈ l ∧ GtValid d.sta i then (gtPoint p.touchtype (tpx i)).1 else d.x i
      y := fun i => if i ∈ l ∧ GtValid d.sta i then (gtPoint p.touchtype (tpx i)).2 else d.y i } := by
  rw [← Base.foldl_update_if, ← Base.foldl_update_if]
  induction l generalizing d with
  | nil => rfl
  | cons j l ih =>
    rw [List.foldl_cons, List.foldl_cons, List.foldl_cons, gtRead]
    split_ifs
    · rw [ih]
    · rw [ih]

end

/-! ## What a scan shows -/

def GtDev.point (d : GtDev) (i : Fin 5) : Point := (d.x i, d.y i)

def GtDev.Pressed (d : GtDev) : Prop := d.sta &&& tpPresDown ≠ 0

/-- Point `i` of a call, as the driver reads it. -/
def GtCall.point (p : GtPanel) (c : GtCall) (i : Fin 5) : Point := gtPoint p.touchtype (c.tpx i)

def OnScreen (p : GtPanel) (q : Point) : Prop := q.1 < p.width ∧ q.2 < p.height

/-- The test of the driver. -/
def Beyond (p : GtPanel) (q : Point) : Prop := q.1 > p.width ∨ q.2 > p.height

instance GtDev.decidablePressed (d : GtDev) : Decidable d.Pressed := inferInstanceAs (Decidable (_ ≠ _))
instance (p : GtPanel) (q : Point) : Decidable (OnScreen p q) := inferInstanceAs (Decidable (_ ∧ _))
instance (p : GtPanel) (q : Point) : Decidable (Beyond p q) := inferInstanceAs (Decidable (_ ∨ _))

theorem not_beyond_of_onScreen {p : GtPanel} {q : Point} (h : OnScreen p q) : ¬ Beyond p q := by
  rintro (hx | hy)
  · exact UInt16.lt_asymm h.1 hx
  · exact UInt16.lt_asymm h.2 hy

theorem GtDev.restore_point (d : GtDev) (i : Fin 5) : (d.restore i).point 0 = d.point i := by
  simp [restore, point]

section
variable (p : GtPanel) (c : GtCall) (d : GtDev)

theorem gtLoad_pressed {mode : UInt8} (h : HasPoints mode) : (gtLoad p c.tpx mode d).Pressed := by
  rw [GtDev.Pressed, gtLoad, foldl_gtRead]
  exact (gtSta_spec h).2

theorem gtLoad_point {mode : UInt8} (h : HasPoints mode) (i : Fin 5) : (gtLoad p c.tpx mode d).point i =
    if i.val < (mode &&& 0xF).toNat then c.point p i else if i = 4 then d.point 0 else d.point i := by
  have hvalid := (gtSta_spec h).1 i
  rw [gtLoad, foldl_gtRead]
  simp only [GtDev.point, List.mem_finRange, true_and, hvalid]
  split_ifs with hi h4
  · rfl
  · subst h4
    simp
  · simp [h4]

/-- **The points that a report shows.** -/
theorem gtTake_spec {mode : UInt8} (h : HasPoints mode) :
    if ¬ Beyond p (c.point p 0) then
      (gtTake p c.tpx mode d).1 = mode ∧ (gtTake p c.tpx mode d).2.Pressed ∧
        (gtTake p c.tpx mode d).2.point 0 = c.point p 0
    else if mode &&& 0xF > 1 then
      (gtTake p c.tpx mode d).1 = mode ∧ (gtTake p c.tpx mode d).2.Pressed ∧
        (gtTake p c.tpx mode d).2.point 0 = c.point p 1
    else (gtTake p c.tpx mode d).1 = 0x80 ∧ (gtTake p c.tpx mode d).2.sta = d.sta ∧
      (gtTake p c.tpx mode d).2.point 0 = d.point 0 := by
  have hpos : 0 < (mode &&& 0xF).toNat := Nat.pos_of_ne_zero fun h0 => h.1 (UInt8.toNat_inj.1 h0)
  have hfirst := (gtLoad_point p c d h 0).trans (if_pos hpos)
  have htest : (gtLoad p c.tpx mode d).x 0 > p.width ∨ (gtLoad p c.tpx mode d).y 0 > p.height ↔
      Beyond p (c.point p 0) := by
    rw [← hfirst]
    rfl
  unfold gtTake
  simp only [htest]
  split_ifs with hb hn
  · -- the second point is shown in place of the first
    have hsecond := (gtLoad_point p c d h 1).trans (if_pos (UInt8.lt_iff_toNat_lt.1 hn))
    exact ⟨rfl, gtLoad_pressed p c d h, hsecond ▸ GtDev.restore_point _ 1⟩
  · -- the report is ignored: the only point is not point 4
    have hle : (mode &&& 0xF).toNat ≤ 1 := Nat.le_of_not_lt fun hlt => hn (UInt8.lt_iff_toNat_lt.2 hlt)
    have hlt : ¬ (4 : Fin 5).val < (mode &&& 0xF).toNat := Nat.not_lt.2 (Nat.le_trans hle (by decide))
    have hkept := (gtLoad_point p c d h 4).trans (if_neg hlt)
    exact ⟨rfl, rfl, hkept ▸ GtDev.restore_point _ 4⟩
  · exact ⟨rfl, gtLoad_pressed p c d h, hfirst⟩

/-! ## One call -/

theorem gtRelease_of_hasPoints {mode : UInt8} (h : HasPoints mode) : gtRelease mode d = d := by
  refine if_neg fun hnone => h.1 ?_
  have hlow : mode &&& 0xF = mode &&& 0x8F &&& 0xF := by rw [UInt8.and_assoc]; rfl
  rw [hlow, hnone]
  rfl

theorem gtRelease_not_pressed : ¬ (gtRelease 0x80 d).Pressed := by
  rw [gtRelease, if_pos (show (0x80 : UInt8) &&& 0x8F = 0x80 from rfl)]
  split_ifs with hpressed
  · have hflag : ~~~((1 : UInt8) <<< 7) &&& tpPresDown = 0 := rfl
    rw [GtDev.Pressed, UInt8.and_assoc, hflag]
    simp
  · have hflag : (0xE0 : UInt8) &&& tpPresDown = tpPresDown := rfl
    rw [GtDev.Pressed, UInt8.and_assoc, hflag]
    exact hpressed

/-- What is touched after a release was touched before it, at the same point. -/
theorem gtRelease_of_pressed {mode : UInt8} (h : (gtRelease mode d).Pressed) : gtRelease mode d = d := by
  by_cases hnone : mode &&& 0x8F = 0x80
  · refine absurd h ?_
    have hsame : gtRelease mode d = gtRelease 0x80 d := by
      rw [gtRelease, gtRelease, if_pos hnone, if_pos (show (0x80 : UInt8) &&& 0x8F = 0x80 from rfl)]
    exact hsame ▸ gtRelease_not_pressed d
  · exact if_neg hnone

/-- The counter, which falls back to 10, has no part in what is shown. -/
theorem gt9147Scan_shows :
    ((gt9147Scan p c d).dev.Pressed ↔ (gtRelease (gtPoll p c d).1 (gtPoll p c d).2).Pressed) ∧
      (gt9147Scan p c d).dev.point 0 = (gtRelease (gtPoll p c d).1 (gtPoll p c d).2).point 0 := by
  rw [gt9147Scan]
  dsimp only
  split_ifs
  · exact ⟨Iff.rfl, rfl⟩
  · exact ⟨Iff.rfl, rfl⟩

/-- **What a call shows that is told of points.** -/
theorem gt9147Scan_reports (hpolls : d.Polls) (h : HasPoints c.gstid) :
    if ¬ Beyond p (c.point p 0) then
      (gt9147Scan p c d).dev.Pressed ∧ (gt9147Scan p c d).dev.point 0 = c.point p 0
    else if c.gstid &&& 0xF > 1 then
      (gt9147Scan p c d).dev.Pressed ∧ (gt9147Scan p c d).dev.point 0 = c.point p 1
    else ¬ (gt9147Scan p c d).dev.Pressed := by
  obtain ⟨hpressed, hpoint⟩ := gt9147Scan_shows p c d
  have hpoll : gtPoll p c d = gtTake p c.tpx c.gstid { d with t := d.t + 1 } := by
    rw [gtPoll, if_neg (not_not.2 hpolls), if_pos h]
  have htake := gtTake_spec p c { d with t := d.t + 1 } h
  rw [← hpoll] at htake
  rw [hpressed, hpoint]
  split_ifs at htake ⊢
  · rw [htake.1, gtRelease_of_hasPoints _ h]
    exact htake.2
  · rw [htake.1]
    exact gtRelease_not_pressed _
  · rw [htake.1, gtRelease_of_hasPoints _ h]
    exact htake.2

/-- Another call shows what was shown, or nothing. -/
theorem gt9147Scan_quiet (h : ¬ (d.Polls ∧ HasPoints c.gstid)) (hpressed : (gt9147Scan p c d).dev.Pressed) :
    d.Pressed ∧ (gt9147Scan p c d).dev.point 0 = d.point 0 := by
  obtain ⟨hiff, hpoint⟩ := gt9147Scan_shows p c d
  have hpoll : (gtPoll p c d).2 = { d with t := d.t + 1 } := by
    rw [gtPoll]
    split_ifs with hpolls hpoints
    · exact absurd ⟨hpolls, hpoints⟩ h
    · rfl
    · rfl
  rw [hiff] at hpressed
  have hsame := gtRelease_of_pressed _ hpressed
  rw [hsame, hpoll] at hpressed hpoint
  exact ⟨hpressed, hpoint⟩

end

/-! ## The points without wrapping -/

/-- The coordinates that four registers stand for, as integers. -/
def exactPoint (touchtype : UInt8) (buf : Fin 4 → UInt8) : ℤ × ℤ :=
  if Landscape touchtype then (800 - (gtWord (buf 2) (buf 3)).toNat, (gtWord (buf 0) (buf 1)).toNat)
  else ((gtWord (buf 0) (buf 1)).toNat, (gtWord (buf 2) (buf 3)).toNat)

def Inside (p : GtPanel) (q : ℤ × ℤ) : Prop :=
  (0 ≤ q.1 ∧ q.1 < p.width.toNat) ∧ 0 ≤ q.2 ∧ q.2 < p.height.toNat

instance (p : GtPanel) (q : ℤ × ℤ) : Decidable (Inside p q) := inferInstanceAs (Decidable (_ ∧ _))

/-- A difference that wraps is beyond the width. -/
theorem onScreen_gtPoint_iff (p : GtPanel) (buf : Fin 4 → UInt8) :
    OnScreen p (gtPoint p.touchtype buf) ↔ Inside p (exactPoint p.touchtype buf) := by
  have hw := p.width_le
  unfold gtPoint exactPoint
  split_ifs
  · have hv := (gtWord (buf 2) (buf 3)).toNat_lt
    simp only [OnScreen, Inside, UInt16.lt_iff_toNat_lt, UInt16.toNat_sub, UInt16.reduceToNat]
    omega
  · simp only [OnScreen, Inside, UInt16.lt_iff_toNat_lt]
    omega

/-! ## Runs -/

def gtScans (p : GtPanel) (d : GtDev) (cs : List GtCall) : GtDev :=
  cs.foldl (fun d c => (gt9147Scan p c d).dev) d

/-- Whenever a call of the run asks the controller and leaves the screen touched, the point is on
the screen. -/
def StaysOnScreen (p : GtPanel) (d : GtDev) (cs : List GtCall) : Prop :=
  ∀ ys c, ys ++ [c] <+: cs → (gtScans p d ys).Polls → (gtScans p d (ys ++ [c])).Pressed →
    OnScreen p ((gtScans p d (ys ++ [c])).point 0)

/-- The first point is on the screen, or the driver drops it: there is no other, or the second is on
the screen. -/
def Placed (p : GtPanel) (c : GtCall) : Prop :=
  Inside p (exactPoint p.touchtype (c.tpx 0)) ∨ Beyond p (c.point p 0) ∧
    (c.gstid &&& 0xF = 1 ∨ Inside p (exactPoint p.touchtype (c.tpx 1)))

/-- Every report of the run that the driver asks for is placed. -/
def ReportsPlaced (p : GtPanel) (d : GtDev) (cs : List GtCall) : Prop :=
  ∀ ys c, ys ++ [c] <+: cs → (gtScans p d ys).Polls → HasPoints c.gstid → Placed p c

section
variable {p : GtPanel} {d : GtDev}

theorem gtScans_concat (cs : List GtCall) (c : GtCall) :
    gtScans p d (cs ++ [c]) = (gt9147Scan p c (gtScans p d cs)).dev := by
  rw [gtScans, List.foldl_append]
  rfl

/-- A report is placed if and only if what it shows is on the screen. -/
theorem placed_iff {c : GtCall} (hpolls : d.Polls) (h : HasPoints c.gstid) : Placed p c ↔
    ((gt9147Scan p c d).dev.Pressed → OnScreen p ((gt9147Scan p c d).dev.point 0)) := by
  have hreports := gt9147Scan_reports p c d hpolls h
  rw [Placed, ← onScreen_gtPoint_iff, ← onScreen_gtPoint_iff]
  change OnScreen p (c.point p 0) ∨ Beyond p (c.point p 0) ∧ (_ ∨ OnScreen p (c.point p 1)) ↔ _
  split_ifs at hreports with hb hn
  · -- the second point is shown
    have hoff : ¬ OnScreen p (c.point p 0) := fun hon => not_beyond_of_onScreen hon hb
    have hmany : c.gstid &&& 0xF ≠ 1 := fun h1 => UInt8.lt_irrefl 1 (by rwa [h1] at hn)
    rw [hreports.2, or_iff_right hoff, and_iff_right hb, or_iff_right hmany, forall_prop_of_true hreports.1]
  · -- nothing is shown
    have hone : c.gstid &&& 0xF = 1 := by
      have hpos : (c.gstid &&& 0xF).toNat ≠ 0 := fun h0 => h.1 (UInt8.toNat_inj.1 h0)
      rw [gt_iff_lt, UInt8.lt_iff_toNat_lt] at hn
      exact UInt8.toNat_inj.1 (Nat.le_antisymm (Nat.le_of_not_lt hn) (Nat.pos_of_ne_zero hpos))
    exact iff_of_true (Or.inr ⟨hb, Or.inl hone⟩) fun hpressed => absurd hpressed hreports
  · -- the first point is shown
    rw [hreports.2, forall_prop_of_true hreports.1]
    exact or_iff_left fun hbeyond => hb hbeyond.1

/-- **The point shown stays on the screen along a run that starts untouched**, if and only if every
report of the run is placed. -/
theorem staysOnScreen_iff (hd : ¬ d.Pressed) (cs : List GtCall) :
    StaysOnScreen p d cs ↔ ReportsPlaced p d cs := by
  constructor
  · intro hstays ys c hys hpolls h
    have hshown := hstays ys c hys hpolls
    rw [gtScans_concat] at hshown
    exact (placed_iff hpolls h).2 hshown
  · intro hplaced
    -- whatever is shown comes from the last report that was shown
    have hinv : ∀ ys, ys <+: cs → (gtScans p d ys).Pressed → OnScreen p ((gtScans p d ys).point 0) := by
      intro ys
      induction ys using List.reverseRecOn with
      | nil => exact fun _ hpressed => absurd hpressed hd
      | append_singleton ys c ih =>
        intro hys
        rw [gtScans_concat]
        by_cases h : (gtScans p d ys).Polls ∧ HasPoints c.gstid
        · exact (placed_iff h.1 h.2).1 (hplaced ys c hys h.1 h.2)
        · intro hpressed
          obtain ⟨hbefore, hpoint⟩ := gt9147Scan_quiet p c _ h hpressed
          rw [hpoint]
          exact ih ((List.prefix_append ys [c]).trans hys) hbefore
    exact fun ys c hys _ => hinv _ hys

end

/-! ## Two runs -/

def gtIdle : GtDev := ⟨fun _ => 0xffff, fun _ => 0xffff, 0, 0⟩

/-- A call that meets `n` points, whose registers are the bytes `buf`. -/
def gtReport (n : UInt8) (buf : Fin 5 → Fin 4 → UInt8) : GtCall := ⟨0, 0x80 ||| n, buf⟩

/-- Two points are reported in landscape: for the first the difference wraps, the second is at
700, 100.  Then the screen is released. -/
def swapped : List GtCall :=
  [gtReport 2 fun | 0 => ![100, 0, 0x21, 3] | _ => ![100, 0, 100, 0], gtReport 0 fun _ _ => 0]

def landscapePanel : GtPanel := ⟨⟨800, 480, by decide, by decide⟩, 0x81, by decide⟩

theorem staysOnScreen_swapped : ¬ gtIdle.Pressed ∧ StaysOnScreen landscapePanel gtIdle swapped := by
  have hidle : ¬ gtIdle.Pressed := by decide
  have hplaced : ∀ c ∈ swapped, HasPoints c.gstid → Placed landscapePanel c := by
    unfold Placed
    decide +kernel
  exact ⟨hidle, (staysOnScreen_iff hidle swapped).2 fun ys c hys _ =>
    hplaced c (hys.subset (List.mem_append_right ys (List.mem_singleton_self c)))⟩

def portraitPanel : GtPanel := ⟨⟨480, 800, by decide, by decide⟩, 0x80, by decide⟩

/-- One point, at 480, 100. -/
def edge : GtCall := gtReport 1 fun _ => ![0xE0, 1, 100, 0]

/-- The first column beyond a screen of 480 is shown. -/
theorem not_staysOnScreen : ¬ ∀ (p : GtPanel) (d : GtDev) (cs : List GtCall), ¬ d.Pressed →
    StaysOnScreen p d cs := by
  intro h
  have hshown : OnScreen portraitPanel ((gtScans portraitPanel gtIdle [edge]).point 0) :=
    h portraitPanel gtIdle [edge] (by decide) [] edge (List.prefix_refl _) (by decide) (by decide +kernel)
  revert hshown
  decide +kernel

end DataRecorder.Touch
