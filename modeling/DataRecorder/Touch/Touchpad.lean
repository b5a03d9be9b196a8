/-
  The touch thread and `touchpad_read` of the GUI thread (`GUI_APP/Src/menu.c`,
  `GUI/lvgl_driver/lv_port_indev.c`).

  A step is one call of the touch thread or one `touchpad_read`.  The two threads
  share `tp_dev`; `TP_Scan(1)` stores the coordinates of the converter in the same
  fields as `TP_Scan(0)` those of the screen.

  * `onlyScreen_iff`: LVGL is given coordinates of the screen only, if and only if
    every `touchpad_read` while the pen is down comes after a `TP_Scan(0)` whose
    reading no calibration and no released pen has replaced;
  * `run_calibrate`: a calibration that no other step interrupts is `adjustAndSave`.
-/
import DataRecorder.Touch.Presses

namespace DataRecorder.Touch

open Base

variable {A : Arithmetic}

/-- Which call wrote `x[0]` and `y[0]` last. -/
inductive Writer where
  /-- the static initialisation -/
  | static
  | tpInit
  /-- a `TP_Scan` of a released pen -/
  | released
  /-- a `TP_Scan(raw)` that accepted its reading -/
  | scan (raw : Bool)
  deriving DecidableEq

/-- Where the touch thread is. -/
inductive Place where
  /-- before `TP_Init` -/
  | boot
  /-- in the loop of `touch_entry` -/
  | loop
  /-- before `TP_Adjust`, which `TP_Init` (if `init`) or `touch_entry` calls -/
  | enter (init : Bool)
  /-- in the loop of `TP_Adjust`, with its local variables -/
  | adjust (init : Bool) (cnt : ℕ) (pos : ℕ → Point) (outtime : UInt16)

/-- The EEPROM, `tp_dev`, the touch thread, and `last_x`, `last_y` of `touchpad_read`.  The history:
the writers of the two points, the pairs that a conversion has produced, and the points handed
to LVGL with their writers, the last first. -/
structure Panel (A : Arithmetic) where
  eeprom : Eeprom
  tp : TpDev A
  place : Place
  last : Point
  writer : Writer
  lastWriter : Writer
  converted : List Point
  delivered : List (Point × Writer)

inductive Call where
  /-- `TP_Init`, up to `TP_Adjust` if it calls it -/
  | tpInit (dout : UInt8 → ℕ → UInt16)
  /-- the `TP_Scan(0)` of a pass of `touch_entry`, and whether `KEY0` was pressed -/
  | tpScan (x : Sample) (key0 : Bool)
  /-- the entry of `TP_Adjust` -/
  | tpAdjust
  /-- an iteration of `TP_Adjust` with its `TP_Scan(1)`; the last one saves -/
  | calibrate (x : Sample)
  | touchpadRead

namespace Panel

/-- Who has written the coordinates after a scan of `tp`. -/
def writerOf (raw : Bool) (x : Sample) (tp : TpDev A) (w : Writer) : Writer :=
  if x.pen then if (tpReadXY2 tp x.dout).isSome then .scan raw else w
  else if tp.Pressed then w else .released

/-- `TP_Save_Adjdata` after `TP_Adjust`, and `TP_Get_Adjdata` after that in `TP_Init`. -/
def finish (s : Panel A) (init : Bool) (e : Eeprom) (tp : TpDev A) : Panel A :=
  { s with
    eeprom := saved e tp.toAdjData
    tp := if init then (tpGetAdjdata (saved e tp.toAdjData) tp).getD tp else tp
    place := .loop }

def step (lcd : Lcd) : Call → Panel A → Option (Panel A)
  | .tpInit dout, s =>
    match s.place with
    | .boot =>
      match tpGetAdjdata s.eeprom (firstReading dout) with
      | some tp => some { s with tp := tp, place := .loop, writer := .tpInit }
      | none => some { s with tp := firstReading dout, place := .enter true, writer := .tpInit }
    | _ => none
  | .tpScan x key0, s =>
    match s.place with
    | .loop => some { s with
        tp := Touch.tpScan false x s.tp
        place := if key0 then .enter false else .loop
        writer := writerOf false x s.tp s.writer
        converted :=
          if x.pen then
            ((tpReadXY2 s.tp x.dout).map (pointOf false s.tp.toAdjData)).toList ++ s.converted
          else s.converted }
    | _ => none
  | .tpAdjust, s =>
    match s.place with
    | .enter init =>
      let a := Adjust.start s.tp
      some { s with tp := a.tp, place := .adjust init a.cnt a.pos a.outtime }
    | _ => none
  | .calibrate x, s =>
    match s.place with
    | .adjust init cnt pos outtime =>
      let s' := { s with writer := writerOf true x s.tp s.writer }
      match (Adjust.mk s.tp cnt pos outtime).step lcd x with
      | .running a => some { s' with tp := a.tp, place := .adjust init a.cnt a.pos a.outtime }
      | .accepted tp => some (s'.finish init (saved s.eeprom tp.toAdjData) tp)
      | .timedOut tp => some (s'.finish init s.eeprom ((tpGetAdjdata s.eeprom tp).getD tp))
    | _ => none
  | .touchpadRead, s =>
    let s := if s.tp.Pressed then { s with last := s.tp.point, lastWriter := s.writer } else s
    some { s with delivered := (s.last, s.lastWriter) :: s.delivered }

def start (e : Eeprom) : Panel A := ⟨e, .reset, .boot, (0, 0), .static, .static, [], []⟩

/-- Every point handed to LVGL is the initial one, or the conversion of an accepted reading. -/
def OnlyScreen (s : Panel A) : Prop := ∀ d ∈ s.delivered,
  (d.2 = .static ∧ d.1 = (0, 0)) ∨ (d.2 = .scan false ∧ d.1 ∈ s.converted)

/-! ## The pen and the readings -/

/-- Whether the flag `TP_PRES_DOWN` is set, from the calls and the pen. -/
def penAfter (down : Bool) : Call → Bool
  | .tpInit _ => false
  | .tpScan x _ => x.pen
  | .tpAdjust => false
  | .calibrate x => x.pen
  | .touchpadRead => down

def penDown (as : List Call) : Bool := as.foldl penAfter false

section
variable (A : Arithmetic) (lcd : Lcd) (e : Eeprom)

/-- The pen is down, and the conversions of `x` after the calls `before` pass `TP_Read_XY2`, for the channels that
are selected then. -/
def Accepts (before : List Call) (x : Sample) : Prop :=
  x.pen ∧ ∃ s : Panel A, run (step lcd) before (start e) = some s ∧ (tpReadXY2 s.tp x.dout).isSome

/-- The pen is up, and was up before: the coordinates become `0xffff`. -/
def Idles (before : List Call) (x : Sample) : Prop := ¬ x.pen ∧ ¬ penDown before

/-- The call leaves other coordinates than those of the screen: a reading of the calibration, or
the mark of a released pen. -/
def Spoils (before : List Call) : Call → Prop
  | .tpInit _ => True
  | .tpScan x _ => Idles before x
  | .tpAdjust => False
  | .calibrate x => Accepts A lcd e before x ∨ Idles before x
  | .touchpadRead => False

/-- A `TP_Scan(0)` has accepted its reading, and no call after it has left other coordinates. -/
def OnScreen (before : List Call) : Prop :=
  ∃ ys x key0 zs, before = ys ++ .tpScan x key0 :: zs ∧ Accepts A lcd e ys x ∧
    ∀ us a vs, zs = us ++ a :: vs → ¬ Spoils A lcd e (ys ++ .tpScan x key0 :: us) a

/-- Every `touchpad_read` while the pen is down comes when the coordinates are those of the screen. -/
def ReadsScreen (as : List Call) : Prop :=
  ∀ before after, as = before ++ .touchpadRead :: after → penDown before → OnScreen A lcd e before

end

/-- A `touchpad_read` that finds the pen down finds coordinates of a `TP_Scan(0)`. -/
def FindsScreen (s : Panel A) (a : Call) : Prop :=
  a = .touchpadRead → s.tp.Pressed → s.writer = .scan false

instance (s : Panel A) : ∀ a, Decidable (s.FindsScreen a)
  | .tpInit _ => isTrue nofun
  | .tpScan _ _ => isTrue nofun
  | .tpAdjust => isTrue nofun
  | .calibrate _ => isTrue nofun
  | .touchpadRead => decidable_of_iff (s.tp.Pressed → s.writer = .scan false) ⟨fun h _ => h, fun h => h rfl⟩

end Panel

/-! ## What leaves the coordinates and the flag alone -/

/-- The same coordinates, and the same flag. -/
def TpDev.SameTouch (tp' tp : TpDev A) : Prop := tp'.point = tp.point ∧ (tp'.Pressed ↔ tp.Pressed)

theorem TpDev.SameTouch.trans {tp₁ tp₂ tp₃ : TpDev A} (h : tp₁.SameTouch tp₂) (h' : tp₂.SameTouch tp₃) :
    tp₁.SameTouch tp₃ := ⟨h.1.trans h'.1, h.2.trans h'.2⟩

theorem TpDev.selectAxes_sameTouch (tp : TpDev A) : tp.selectAxes.SameTouch tp := by
  unfold TpDev.selectAxes
  split_ifs <;> exact ⟨rfl, Iff.rfl⟩

theorem getD_tpGetAdjdata_sameTouch (e : Eeprom) (tp : TpDev A) :
    ((tpGetAdjdata e tp).getD tp).SameTouch tp := by
  by_cases hmark : e (saveAddrBase + 13) = 0x0A
  · rw [tpGetAdjdata_of_marker tp hmark, Option.getD_some]
    exact (TpDev.selectAxes_sameTouch _).trans ⟨rfl, Iff.rfl⟩
  · rw [tpGetAdjdata, if_neg hmark]
    exact ⟨rfl, Iff.rfl⟩

/-- `tp_dev` after an iteration of `TP_Adjust`. -/
def Ending.tp : Ending A (Adjust A) → TpDev A
  | .running a => a.tp
  | .accepted tp => tp
  | .timedOut tp => tp

theorem Adjust.tick_tp (a : Adjust A) : a.tick.tp = a.tp := by
  unfold Adjust.tick
  split_ifs <;> rfl

/-- An iteration leaves the coordinates and the flag as its scan has set them. -/
theorem Adjust.step_sameTouch (lcd : Lcd) (a : Adjust A) (x : Sample) :
    (a.step lcd x).tp.SameTouch (tpScan true x a.tp) := by
  have hclear : ∀ tp : TpDev A,
      ({ tp with sta := tp.sta &&& ~~~tpCathPres } : TpDev A).SameTouch tp := by
    refine fun tp => ⟨rfl, ?_⟩
    show tp.sta &&& ~~~tpCathPres &&& tpPresDown ≠ 0 ↔ tp.sta &&& tpPresDown ≠ 0
    rw [UInt8.and_assoc, show ~~~tpCathPres &&& tpPresDown = tpPresDown by decide]
  unfold Adjust.step
  dsimp only
  split
  · split
    · split
      · exact hclear _
      · exact (TpDev.selectAxes_sameTouch _).trans (hclear _)
      · exact hclear _
    · rw [Adjust.tick_tp]
      exact hclear _
  · rw [Adjust.tick_tp]
    exact ⟨rfl, Iff.rfl⟩

namespace Panel

variable {lcd : Lcd}

/-! ## What the writer tells -/

/-- Either the scan has stored a reading, or it has left the coordinates to their writer. -/
theorem writerOf_scan {raw raw' : Bool} {x : Sample} {tp : TpDev A} {w : Writer}
    (h : writerOf raw x tp w = .scan raw') :
    (raw = raw' ∧ x.pen ∧ ∃ p, tpReadXY2 tp x.dout = some p ∧
      (Touch.tpScan raw x tp).point = pointOf raw tp.toAdjData p) ∨
    (w = .scan raw' ∧ (Touch.tpScan raw x tp).point = tp.point) := by
  unfold writerOf at h
  rw [tpScan_point]
  by_cases hpen : x.pen
  · rw [if_pos hpen] at h ⊢
    cases hp : tpReadXY2 tp x.dout with
    | none => exact .inr ⟨by simpa [hp] using h, rfl⟩
    | some p => exact .inl ⟨by simpa [hp] using h, hpen, p, rfl, rfl⟩
  · rw [if_neg hpen] at h ⊢
    by_cases hdown : tp.Pressed
    · rw [if_pos hdown] at h ⊢
      exact .inr ⟨h, rfl⟩
    · rw [if_neg hdown] at h
      cases h

theorem writerOf_ne_static {raw : Bool} {x : Sample} {tp : TpDev A} {w : Writer} (h : w ≠ .static) :
    writerOf raw x tp w ≠ .static := by
  unfold writerOf
  split_ifs
  · simp
  · exact h
  · exact h
  · simp

/-- What the writers say about the points is true. -/
structure Sane (s : Panel A) : Prop where
  booting : s.writer = .static → s.place = .boot
  idle : s.place = .boot → ¬ s.tp.Pressed
  screen : s.writer = .scan false → s.tp.point ∈ s.converted
  lastStatic : s.lastWriter = .static → s.last = (0, 0)
  lastScreen : s.lastWriter = .scan false → s.last ∈ s.converted
  static : ∀ d ∈ s.delivered, d.2 = .static → d.1 = (0, 0)
  delivered : ∀ d ∈ s.delivered, d.2 = .scan false → d.1 ∈ s.converted

theorem sane_start (e : Eeprom) : (start e : Panel A).Sane where
  booting _ := rfl
  idle _ := by simp [start, TpDev.Pressed, TpDev.reset]
  screen h := by cases h
  lastStatic _ := rfl
  lastScreen h := by cases h
  static d h := absurd h List.not_mem_nil
  delivered d h := absurd h List.not_mem_nil

/-- A call of the touch thread leaves what `touchpad_read` has, and may add conversions. -/
theorem Sane.touch {s s' : Panel A} (h : s.Sane) (hplace : s'.place ≠ .boot) (hwriter : s'.writer ≠ .static)
    (hscreen : s'.writer = .scan false → s'.tp.point ∈ s'.converted)
    (hconv : ∀ p ∈ s.converted, p ∈ s'.converted) (hlast : s'.last = s.last)
    (hlastWriter : s'.lastWriter = s.lastWriter) (hdelivered : s'.delivered = s.delivered) : s'.Sane where
  booting hw := absurd hw hwriter
  idle hp := absurd hp hplace
  screen := hscreen
  lastStatic hw := by rw [hlast]; exact h.lastStatic (hlastWriter ▸ hw)
  lastScreen hw := by rw [hlast]; exact hconv _ (h.lastScreen (hlastWriter ▸ hw))
  static d hd := h.static d (hdelivered ▸ hd)
  delivered d hd hw := hconv _ (h.delivered d (hdelivered ▸ hd) hw)

theorem Sane.tpInit {dout : UInt8 → ℕ → UInt16} {s s' : Panel A} (h : s.Sane)
    (hs : step lcd (.tpInit dout) s = some s') : s'.Sane := by
  simp only [Panel.step] at hs
  split at hs
  · split at hs
    · cases hs
      exact h.touch (by simp) (by simp) (by simp) (fun _ hp => hp) rfl rfl rfl
    · cases hs
      exact h.touch (by simp) (by simp) (by simp) (fun _ hp => hp) rfl rfl rfl
  · cases hs

theorem Sane.tpScan {x : Sample} {key0 : Bool} {s s' : Panel A} (h : s.Sane)
    (hs : step lcd (.tpScan x key0) s = some s') : s'.Sane := by
  simp only [Panel.step] at hs
  split at hs
  · next hplace =>
    cases hs
    have hwriter : s.writer ≠ .static := fun hw => by simp [h.booting hw] at hplace
    have hconv : ∀ p ∈ s.converted, p ∈ (if x.pen then
        ((tpReadXY2 s.tp x.dout).map (pointOf false s.tp.toAdjData)).toList ++ s.converted
        else s.converted) := by
      intro p hp
      split_ifs
      · exact List.mem_append_right _ hp
      · exact hp
    refine h.touch ?_ (writerOf_ne_static hwriter) ?_ hconv rfl rfl rfl
    · cases key0 <;> simp
    · intro hw
      rcases writerOf_scan hw with ⟨-, hpen, p, hp, hpoint⟩ | ⟨hw', hpoint⟩
      · show (Touch.tpScan false x s.tp).point ∈ _
        rw [hpoint, if_pos hpen, hp]
        exact List.mem_cons_self
      · show (Touch.tpScan false x s.tp).point ∈ _
        rw [hpoint]
        exact hconv _ (h.screen hw')
  · cases hs

/-- What an iteration of `TP_Adjust` does, the last one included. -/
theorem step_calibrate {x : Sample} {s s' : Panel A} (hs : step lcd (.calibrate x) s = some s') :
    s.place ≠ .boot ∧ s'.place ≠ .boot ∧ s'.tp.SameTouch (Touch.tpScan true x s.tp) ∧
      s'.writer = writerOf true x s.tp s.writer ∧ s'.converted = s.converted ∧
      s'.last = s.last ∧ s'.lastWriter = s.lastWriter ∧ s'.delivered = s.delivered := by
  simp only [Panel.step] at hs
  split at hs
  · next init cnt pos outtime hplace =>
    have hboot : s.place ≠ .boot := fun h => by simp [h] at hplace
    have htouch := Adjust.step_sameTouch lcd (Adjust.mk s.tp cnt pos outtime) x
    have hfinish : ∀ (e : Eeprom) (tp : TpDev A), tp.SameTouch (Touch.tpScan true x s.tp) →
        (if init then (tpGetAdjdata e tp).getD tp else tp).SameTouch (Touch.tpScan true x s.tp) := by
      intro e tp htp
      split_ifs
      · exact (getD_tpGetAdjdata_sameTouch e tp).trans htp
      · exact htp
    split at hs
    · next a ha =>
      cases hs
      rw [ha] at htouch
      exact ⟨hboot, by simp, htouch, rfl, rfl, rfl, rfl, rfl⟩
    · next tp htp =>
      cases hs
      rw [htp] at htouch
      exact ⟨hboot, by simp [finish], hfinish _ _ htouch, rfl, rfl, rfl, rfl, rfl⟩
    · next tp htp =>
      cases hs
      rw [htp] at htouch
      exact ⟨hboot, by simp [finish], hfinish _ _ ((getD_tpGetAdjdata_sameTouch _ _).trans htouch), rfl, rfl, rfl,
        rfl, rfl⟩
  · cases hs

theorem Sane.calibrate {x : Sample} {s s' : Panel A} (h : s.Sane)
    (hs : step lcd (.calibrate x) s = some s') : s'.Sane := by
  obtain ⟨hboot, hplace, htouch, hw, hconv, hlast, hlastWriter, hdelivered⟩ := step_calibrate hs
  have hwriter : s'.writer ≠ .static := hw ▸ writerOf_ne_static fun hw' => hboot (h.booting hw')
  refine h.touch hplace hwriter (fun hw' => ?_) (fun p hp => hconv.symm ▸ hp) hlast hlastWriter hdelivered
  -- a reading of the calibration is not a conversion
  rcases writerOf_scan (hw ▸ hw') with ⟨hraw, -⟩ | ⟨hw'', hpoint⟩
  · cases hraw
  · rw [htouch.1, hpoint, hconv]
    exact h.screen hw''

theorem Sane.touchpadRead {s s' : Panel A} (h : s.Sane) (hs : step lcd .touchpadRead s = some s') :
    s'.Sane := by
  obtain rfl := Option.some.inj hs
  by_cases hpress : s.tp.Pressed
  · have hwriter : s.writer ≠ .static := fun hw => h.idle (h.booting hw) hpress
    rw [if_pos hpress]
    refine ⟨h.booting, h.idle, h.screen, fun hw => absurd hw hwriter, h.screen, ?_, ?_⟩
    · intro d hd hw
      rcases List.mem_cons.1 hd with rfl | hd
      · exact absurd hw hwriter
      · exact h.static d hd hw
    · intro d hd hw
      rcases List.mem_cons.1 hd with rfl | hd
      · exact h.screen hw
      · exact h.delivered d hd hw
  · rw [if_neg hpress]
    refine ⟨h.booting, h.idle, h.screen, h.lastStatic, h.lastScreen, ?_, ?_⟩
    · intro d hd hw
      rcases List.mem_cons.1 hd with rfl | hd
      · exact h.lastStatic hw
      · exact h.static d hd hw
    · intro d hd hw
      rcases List.mem_cons.1 hd with rfl | hd
      · exact h.lastScreen hw
      · exact h.delivered d hd hw

theorem Sane.step {a : Call} {s s' : Panel A} (h : s.Sane) (hs : step lcd a s = some s') : s'.Sane := by
  cases a with
  | tpInit dout => exact h.tpInit hs
  | tpScan x key0 => exact h.tpScan hs
  | tpAdjust =>
    simp only [Panel.step] at hs
    split at hs
    · next init hplace =>
      cases hs
      have hwriter : s.writer ≠ .static := fun hw => by simp [h.booting hw] at hplace
      exact h.touch (by simp) hwriter h.screen (fun _ hp => hp) rfl rfl rfl
    · cases hs
  | calibrate x => exact h.calibrate hs
  | touchpadRead => exact h.touchpadRead hs

/-! ## Which runs give screen coordinates only -/

/-- What has been handed over, and what `last_x`, `last_y` hold, is no raw reading and no mark. -/
structure Clean (s : Panel A) : Prop where
  last : s.lastWriter = .static ∨ s.lastWriter = .scan false
  delivered : ∀ d ∈ s.delivered, d.2 = .static ∨ d.2 = .scan false

theorem Sane.onlyScreen_origin {s : Panel A} (h : s.Sane) :
    s.OnlyScreen ↔ ∀ d ∈ s.delivered, d.2 = .static ∨ d.2 = .scan false := by
  refine forall₂_congr fun d hd => ⟨fun hd' => hd'.imp And.left And.left, fun hd' => ?_⟩
  rcases hd' with hw | hw
  · exact .inl ⟨hw, h.static d hd hw⟩
  · exact .inr ⟨hw, h.delivered d hd hw⟩

/-- Only `touchpad_read` hands anything over. -/
theorem step_touch {a : Call} {s s' : Panel A} (ha : a ≠ .touchpadRead) (hs : step lcd a s = some s') :
    s'.lastWriter = s.lastWriter ∧ s'.delivered = s.delivered := by
  cases a with
  | touchpadRead => exact absurd rfl ha
  | tpInit dout =>
    simp only [Panel.step] at hs
    split at hs
    · split at hs <;> cases hs <;> exact ⟨rfl, rfl⟩
    · cases hs
  | tpScan x key0 =>
    simp only [Panel.step] at hs
    split at hs
    · cases hs; exact ⟨rfl, rfl⟩
    · cases hs
  | tpAdjust =>
    simp only [Panel.step] at hs
    split at hs
    · cases hs; exact ⟨rfl, rfl⟩
    · cases hs
  | calibrate x =>
    obtain ⟨-, -, -, -, -, -, hlastWriter, hdelivered⟩ := step_calibrate hs
    exact ⟨hlastWriter, hdelivered⟩

/-- The writer of the point that `touchpad_read` hands over. -/
def readWriter (s : Panel A) : Writer := if s.tp.Pressed then s.writer else s.lastWriter

theorem step_touchpadRead {s s' : Panel A} (hs : step lcd .touchpadRead s = some s') :
    s'.lastWriter = s.readWriter ∧ ∃ p, s'.delivered = (p, s.readWriter) :: s.delivered := by
  obtain rfl := Option.some.inj hs
  by_cases hpress : s.tp.Pressed
  · rw [readWriter, if_pos hpress, if_pos hpress]
    exact ⟨rfl, _, rfl⟩
  · rw [readWriter, if_neg hpress, if_neg hpress]
    exact ⟨rfl, _, rfl⟩

theorem Clean.step {a : Call} {s s' : Panel A} (h : s.Clean) (hg : s.FindsScreen a)
    (hs : step lcd a s = some s') : s'.Clean := by
  by_cases ha : a = .touchpadRead
  · subst ha
    obtain ⟨hlast, p, hdelivered⟩ := step_touchpadRead hs
    have hread : s.readWriter = .static ∨ s.readWriter = .scan false := by
      unfold readWriter
      split_ifs with hpress
      · exact .inr (hg rfl hpress)
      · exact h.last
    refine ⟨hlast ▸ hread, fun d hd => ?_⟩
    rw [hdelivered] at hd
    rcases List.mem_cons.1 hd with rfl | hd
    · exact hread
    · exact h.delivered d hd
  · obtain ⟨hlast, hdelivered⟩ := step_touch ha hs
    exact ⟨hlast ▸ h.last, hdelivered ▸ h.delivered⟩

/-- What was handed over stays so. -/
theorem run_delivered {as : List Call} {s t : Panel A} (h : run (step lcd) as s = some t) :
    ∀ d ∈ s.delivered, d ∈ t.delivered := by
  refine run_inv (I := fun t => ∀ d ∈ s.delivered, d ∈ t.delivered) ?_ (fun _ hd => hd) h
  intro s₁ a s₂ hI hs d hd
  by_cases ha : a = .touchpadRead
  · subst ha
    obtain ⟨-, p, hdelivered⟩ := step_touchpadRead hs
    rw [hdelivered]
    exact List.mem_cons_of_mem _ (hI d hd)
  · rw [(step_touch ha hs).2]
    exact hI d hd

/-- A `touchpad_read` that finds other coordinates hands them over. -/
theorem findsScreen_of_delivered {as : List Call} {s s' t : Panel A} {a : Call} (hsane : s.Sane)
    (hs : step lcd a s = some s') (h : run (step lcd) as s' = some t)
    (hdelivered : ∀ d ∈ t.delivered, d.2 = .static ∨ d.2 = .scan false) : s.FindsScreen a := by
  rintro rfl hpress
  obtain ⟨-, p, hhead⟩ := step_touchpadRead hs
  have hmem : (p, s.readWriter) ∈ t.delivered := run_delivered h _ (hhead ▸ List.mem_cons_self)
  have hwriter : s.readWriter = s.writer := if_pos hpress
  rcases hdelivered _ hmem with hw | hw
  · exact absurd hpress (hsane.idle (hsane.booting (hwriter ▸ hw)))
  · exact hwriter ▸ hw

theorem guarded_of_delivered {t : Panel A} (hdelivered : ∀ d ∈ t.delivered, d.2 = .static ∨ d.2 = .scan false) :
    ∀ {as : List Call} {s : Panel A}, s.Sane → run (step lcd) as s = some t →
      Guarded (step lcd) FindsScreen s as
  | [], _, _, _ => trivial
  | a :: as, s, hsane, h => by
    obtain ⟨s', hs, h'⟩ := run_cons_some.1 h
    exact .cons (findsScreen_of_delivered hsane hs h' hdelivered) hs
      (guarded_of_delivered hdelivered (hsane.step hs) h')

theorem onlyScreen_iff_guarded {e : Eeprom} {as : List Call} {s : Panel A}
    (h : run (step lcd) as (start e) = some s) :
    s.OnlyScreen ↔ Guarded (step lcd) FindsScreen (start e : Panel A) as := by
  have hsane : s.Sane := run_inv (fun _ _ _ => Sane.step) (sane_start e) h
  rw [hsane.onlyScreen_origin]
  constructor
  · exact fun hdelivered => guarded_of_delivered hdelivered (sane_start e) h
  · intro hg
    have hclean : (start e : Panel A).Clean := ⟨.inl rfl, fun d hd => absurd hd List.not_mem_nil⟩
    exact (hg.run_inv (fun _ _ _ hs hG hstep => Clean.step hs hG hstep) hclean h).delivered

/-! ## What the calls tell -/

section
variable {e : Eeprom}

theorem penDown_concat (as : List Call) (a : Call) : penDown (as ++ [a]) = penAfter (penDown as) a := by
  rw [penDown, List.foldl_append]
  rfl

theorem onScreen_concat {as : List Call} {a : Call} : OnScreen A lcd e (as ++ [a]) ↔
    (∃ x key0, a = .tpScan x key0 ∧ Accepts A lcd e as x) ∨ (OnScreen A lcd e as ∧ ¬ Spoils A lcd e as a) := by
  constructor
  · rintro ⟨ys, x, key0, zs, has, haccepts, hzs⟩
    rcases List.eq_nil_or_concat' zs with rfl | ⟨zs, b, rfl⟩
    · obtain ⟨rfl, ha⟩ := List.append_inj' has rfl
      exact .inl ⟨x, key0, List.singleton_inj.1 ha, haccepts⟩
    · obtain ⟨rfl, ha⟩ := List.append_inj' (has.trans (List.append_assoc ys (_ :: zs) [b]).symm) rfl
      obtain rfl := List.singleton_inj.1 ha
      refine .inr ⟨⟨ys, x, key0, zs, rfl, haccepts, fun us c vs h => ?_⟩, hzs zs a [] rfl⟩
      exact hzs us c (vs ++ [a]) (by rw [h, List.append_assoc, List.cons_append])
  · rintro (⟨x, key0, rfl, haccepts⟩ | ⟨⟨ys, x, key0, zs, rfl, haccepts, hzs⟩, hspoils⟩)
    · exact ⟨as, x, key0, [], rfl, haccepts, fun us c vs h => by simp at h⟩
    · refine ⟨ys, x, key0, zs ++ [a], by simp, haccepts, fun us c vs h => ?_⟩
      rcases List.eq_nil_or_concat' vs with rfl | ⟨vs, d, rfl⟩
      · obtain ⟨rfl, ha⟩ := List.append_inj' h rfl
        obtain rfl := List.singleton_inj.1 ha
        exact hspoils
      · obtain ⟨hus, -⟩ := List.append_inj' (h.trans (List.append_assoc us (c :: vs) [d]).symm) rfl
        exact hzs us c vs hus

/-- `TP_Adjust` clears the flag, and the other calls leave it as their scans do. -/
theorem step_pressed {a : Call} {s s' : Panel A} {down : Bool} (hdown : s.tp.Pressed ↔ down)
    (hs : step lcd a s = some s') : s'.tp.Pressed ↔ penAfter down a := by
  cases a with
  | tpInit dout =>
    have hfirst : ¬ (firstReading dout : TpDev A).Pressed := by simp [firstReading, TpDev.Pressed, TpDev.reset]
    have htouch := getD_tpGetAdjdata_sameTouch s.eeprom (firstReading dout : TpDev A)
    simp only [Panel.step] at hs
    split at hs
    · split at hs
      · next tp htp =>
        cases hs
        rw [htp, Option.getD_some] at htouch
        exact htouch.2.trans (iff_of_false hfirst Bool.false_ne_true)
      · cases hs
        exact iff_of_false hfirst Bool.false_ne_true
    · cases hs
  | tpScan x key0 =>
    simp only [Panel.step] at hs
    split at hs
    · cases hs
      exact tpScan_pressed false x s.tp
    · cases hs
  | tpAdjust =>
    simp only [Panel.step] at hs
    split at hs
    · cases hs
      exact iff_of_false (by simp [Adjust.start, TpDev.Pressed]) Bool.false_ne_true
    · cases hs
  | calibrate x =>
    obtain ⟨-, -, htouch, -⟩ := step_calibrate hs
    exact htouch.2.trans (tpScan_pressed true x s.tp)
  | touchpadRead =>
    obtain rfl := Option.some.inj hs
    split_ifs <;> exact hdown

theorem pressed_iff {as : List Call} {s : Panel A} (h : run (step lcd) as (start e) = some s) :
    s.tp.Pressed ↔ penDown as := by
  induction as using List.reverseRecOn generalizing s with
  | nil =>
    cases h
    exact iff_of_false (sane_start e |>.idle rfl) Bool.false_ne_true
  | append_singleton as a ih =>
    obtain ⟨t, ht, hs⟩ := run_snoc_some.1 h
    rw [penDown_concat]
    exact step_pressed (ih ht) hs

theorem accepts_iff {as : List Call} {s : Panel A} (h : run (step lcd) as (start e) = some s) {x : Sample} :
    Accepts A lcd e as x ↔ x.pen ∧ (tpReadXY2 s.tp x.dout).isSome := by
  refine and_congr_right fun _ => ⟨?_, fun hsome => ⟨s, h, hsome⟩⟩
  rintro ⟨t, ht, hsome⟩
  rwa [Option.some.inj (h.symm.trans ht)]

theorem writerOf_screen {raw : Bool} {x : Sample} {tp : TpDev A} {w : Writer} : writerOf raw x tp w = .scan false ↔
    (raw = false ∧ x.pen ∧ (tpReadXY2 tp x.dout).isSome) ∨
      (w = .scan false ∧ ¬ (x.pen ∧ (tpReadXY2 tp x.dout).isSome) ∧ (x.pen ∨ tp.Pressed)) := by
  unfold writerOf
  split_ifs with hpen hsome hdown <;> simp [*]

theorem step_writer {as : List Call} {a : Call} {s s' : Panel A} (h : run (step lcd) as (start e) = some s)
    (hs : step lcd a s = some s') (hw : s.writer = .scan false ↔ OnScreen A lcd e as) :
    s'.writer = .scan false ↔ OnScreen A lcd e (as ++ [a]) := by
  rw [onScreen_concat, ← hw]
  cases a with
  | tpInit dout =>
    simp only [Panel.step] at hs
    split at hs
    · split at hs <;> cases hs <;> simp [Spoils]
    · cases hs
  | tpScan x key0 =>
    simp only [Panel.step] at hs
    split at hs
    · cases hs
      have hscan : (∃ y key, Call.tpScan x key0 = .tpScan y key ∧ Accepts A lcd e as y) ↔ Accepts A lcd e as x :=
        ⟨fun ⟨_, _, heq, hy⟩ => by cases heq; exact hy, fun hx => ⟨x, key0, rfl, hx⟩⟩
      rw [hscan, Spoils, Idles, ← pressed_iff h, accepts_iff h]
      refine writerOf_screen.trans ?_
      tauto
    · cases hs
  | tpAdjust =>
    simp only [Panel.step] at hs
    split at hs
    · cases hs
      simp [Spoils]
    · cases hs
  | calibrate x =>
    obtain ⟨-, -, -, hwriter, -⟩ := step_calibrate hs
    rw [hwriter, Spoils, Idles, ← pressed_iff h, accepts_iff h]
    refine writerOf_screen.trans ?_
    simp only [reduceCtorEq, false_and, exists_false]
    tauto
  | touchpadRead =>
    obtain rfl := Option.some.inj hs
    simp only [Spoils, reduceCtorEq, false_and, exists_false, false_or, not_false_iff, and_true]
    split_ifs <;> exact Iff.rfl

theorem writer_iff {as : List Call} {s : Panel A} (h : run (step lcd) as (start e) = some s) :
    s.writer = .scan false ↔ OnScreen A lcd e as := by
  induction as using List.reverseRecOn generalizing s with
  | nil =>
    cases h
    refine iff_of_false (by simp [start]) ?_
    rintro ⟨ys, x, key0, zs, has, -⟩
    simp at has
  | append_singleton as a ih =>
    obtain ⟨t, ht, hs⟩ := run_snoc_some.1 h
    exact step_writer ht hs (ih ht)

theorem readsScreen_iff {as : List Call} {s : Panel A} (h : run (step lcd) as (start e) = some s) :
    ReadsScreen A lcd e as ↔ Guarded (step lcd) FindsScreen (start e : Panel A) as := by
  rw [guarded_iff]
  constructor
  · rintro hreads before a after has t ht rfl hpress
    exact (writer_iff ht).2 (hreads before after has ((pressed_iff ht).1 hpress))
  · intro hfinds before after has hdown
    rw [has, run_append] at h
    obtain ⟨t, ht, -⟩ := Option.bind_eq_some_iff.1 h
    exact (writer_iff ht).1 (hfinds before _ after has t ht rfl ((pressed_iff ht).2 hdown))

end

/-- The EEPROM and `tp_dev` when `TP_Adjust` returns. -/
def settled (e : Eeprom) : Ending A Unit → Option (Eeprom × TpDev A)
  | .running _ => none
  | .accepted tp => some (saved e tp.toAdjData, tp)
  | .timedOut tp => some (e, (tpGetAdjdata e tp).getD tp)

theorem adjustAndSave_eq (scans : List Sample) (u : TouchThread A) {v : TouchThread A}
    (h : adjustAndSave lcd scans u = some v) : ∃ e, v.eeprom = saved e v.tp.toAdjData ∧
      settled u.eeprom ((Adjust.start u.tp).loop lcd scans) = some (e, v.tp) := by
  unfold adjustAndSave at h
  split at h
  · cases h
  · next tp htp => cases h; rw [htp]; exact ⟨_, rfl, rfl⟩
  · next tp htp => cases h; rw [htp]; exact ⟨_, rfl, rfl⟩

/-- The iterations of a `TP_Adjust` that ends. -/
theorem run_loop {init : Bool} {e : Eeprom} {tp : TpDev A} : ∀ {xs : List Sample} {s : Panel A} {a : Adjust A},
    s.tp = a.tp → s.place = .adjust init a.cnt a.pos a.outtime →
    settled s.eeprom (a.loop lcd xs) = some (e, tp) →
      ∃ n t, run (step lcd) ((xs.take n).map .calibrate) s = some t ∧ t.place = .loop ∧
        t.eeprom = saved e tp.toAdjData ∧
        t.tp = if init then (tpGetAdjdata (saved e tp.toAdjData) tp).getD tp else tp
  | [], _, _, _, _, h => by cases h
  | x :: xs, s, a, htp, hplace, h => by
    have hstep : step lcd (.calibrate x) s =
        (let s' := { s with writer := writerOf true x s.tp s.writer }
        match a.step lcd x with
        | .running a => some { s' with tp := a.tp, place := .adjust init a.cnt a.pos a.outtime }
        | .accepted tp => some (s'.finish init (saved s.eeprom tp.toAdjData) tp)
        | .timedOut tp => some (s'.finish init s.eeprom ((tpGetAdjdata s.eeprom tp).getD tp))) := by
      rw [Panel.step, hplace, htp]
    rw [Adjust.loop] at h
    split at h
    · next a' ha =>
      obtain ⟨n, t, hrun, ht⟩ := run_loop (s := { s with
        writer := writerOf true x s.tp s.writer, tp := a'.tp,
        place := .adjust init a'.cnt a'.pos a'.outtime }) rfl rfl h
      refine ⟨n + 1, t, run_cons_some.2 ⟨_, ?_, hrun⟩, ht⟩
      rw [hstep, ha]
    · next tp' ha =>
      cases h
      refine ⟨1, _, run_cons_some.2 ⟨_, hstep.trans (by rw [ha]), rfl⟩, rfl, rfl, rfl⟩
    · next tp' ha =>
      cases h
      refine ⟨1, _, run_cons_some.2 ⟨_, hstep.trans (by rw [ha]), rfl⟩, rfl, rfl, rfl⟩

/-- **A calibration that no other step interrupts** does what `adjustAndSave` does. -/
theorem run_calibrate {init : Bool} {xs : List Sample} {s : Panel A} {u v : TouchThread A}
    (hplace : s.place = .enter init) (htp : u.tp = s.tp) (he : u.eeprom = s.eeprom)
    (h : adjustAndSave lcd xs u = some v) :
    ∃ n t, run (step lcd) (.tpAdjust :: (xs.take n).map .calibrate) s = some t ∧ t.place = .loop ∧
      t.eeprom = v.eeprom ∧ t.tp = if init then (tpGetAdjdata v.eeprom v.tp).getD v.tp else v.tp := by
  obtain ⟨e, hsaved, hsettled⟩ := adjustAndSave_eq xs u h
  have hstep : step lcd .tpAdjust s = some { s with
      tp := (Adjust.start s.tp).tp
      place := .adjust init (Adjust.start s.tp).cnt (Adjust.start s.tp).pos (Adjust.start s.tp).outtime } := by
    rw [Panel.step, hplace]
  rw [htp, he] at hsettled
  obtain ⟨n, t, hrun, ht⟩ := run_loop (s := { s with
      tp := (Adjust.start s.tp).tp
      place := .adjust init (Adjust.start s.tp).cnt (Adjust.start s.tp).pos (Adjust.start s.tp).outtime })
    rfl rfl hsettled
  rw [hsaved]
  exact ⟨n, t, run_cons_some.2 ⟨_, hstep, hrun⟩, ht⟩

/-! ## Two runs -/

/-- The touch of a calibrated screen, and a calibration in which the pen is never down at a `touchpad_read`. -/
def touchAndCalibrate : List Call :=
  [.tpInit penUp.dout, .tpScan (penAt 100 380) false, .touchpadRead, .tpScan penUp true, .tpAdjust,
    .calibrate (penAt 100 100), .calibrate penUp, .touchpadRead]

/-- A `touchpad_read` during the calibration of a new panel. -/
def firstCalibration : List Call :=
  [.tpInit penUp.dout, .tpAdjust, .calibrate (penAt 100 380), .touchpadRead]

end Panel

end DataRecorder.Touch
