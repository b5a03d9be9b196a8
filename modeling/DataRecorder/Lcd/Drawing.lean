/-
  Runs of drawing calls.

  `Draw` is a call of a function of the driver that writes pixels, `Draw.brush` is
  what it is meant to do to the picture on the screen.

  * `draws_draw`: a call inside the screen does that, and keeps the controller ready;
  * `display_runs`: so does any sequence of calls after `LCD_Display_Dir`;
  * `readPoint_shows`: `LCD_ReadPoint` reads the picture.
-/
import DataRecorder.Base.System
import DataRecorder.Lcd.Screen
import Mathlib.Tactic.IntervalCases

namespace DataRecorder.Lcd

open Base

/-- A call of a drawing function. -/
inductive Draw where
  | clear (color : UInt32)
  | point (pointColor : UInt32) (x y : UInt16)
  | fastPoint (x y : UInt16) (color : UInt32)
  | fill (sx sy ex ey : UInt16) (color : UInt32)
  | colorFill (sx sy ex ey : UInt16) (color : ℕ → UInt16)
  | flush (x1 y1 x2 y2 : ℤ) (colorP : ℕ → UInt16)
  | hline (pixel : UInt16) (x1 x2 y : ℤ)
  | blitLine (pixel : ℕ → UInt16) (x y : ℤ) (size : ℕ)

namespace Draw

/-- The writes on the bus; a loop that does not end within `fuel` passes gives none. -/
def bus (dev : LcdDev) (fuel : ℕ) : Draw → Option (List Bus)
  | clear color => lcdClear dev color
  | point pointColor x y => lcdDrawPoint dev pointColor x y
  | fastPoint x y color => lcdFastDrawPoint dev x y color
  | fill sx sy ex ey color => lcdFill dev fuel sx sy ex ey color
  | colorFill sx sy ex ey color => lcdColorFill dev fuel sx sy ex ey color
  | flush x1 y1 x2 y2 colorP => dispFlush dev fuel x1 y1 x2 y2 colorP
  | hline pixel x1 x2 y => lcdHLine dev pixel x1 x2 y
  | blitLine pixel x y size => lcdBlitLine dev pixel x y size

/-- The call draws inside the screen only. -/
def InScreen (dev : LcdDev) : Draw → Prop
  | clear _ => True
  | point _ x y => x.toNat < dev.width.toNat ∧ y.toNat < dev.height.toNat
  | fastPoint x y _ => x.toNat < dev.width.toNat ∧ y.toNat < dev.height.toNat
  | fill sx sy ex ey _ => sx ≤ ex ∧ sy ≤ ey ∧ ex.toNat < dev.width.toNat ∧ ey.toNat < dev.height.toNat
  | colorFill sx sy ex ey _ => sx ≤ ex ∧ sy ≤ ey ∧ ex.toNat < dev.width.toNat ∧ ey.toNat < dev.height.toNat
  | flush x1 y1 x2 y2 _ => (0 ≤ x1 ∧ x1 ≤ x2 ∧ x2 < dev.width.toNat) ∧ 0 ≤ y1 ∧ y1 ≤ y2 ∧ y2 < dev.height.toNat
  | hline _ x1 x2 y => 0 ≤ x1 ∧ x1 ≤ x2 ∧ x2 < dev.width.toNat ∧ 0 ≤ y ∧ y < dev.height.toNat
  | blitLine _ x y size => 0 ≤ x ∧ 0 < size ∧ x + size ≤ dev.width.toNat ∧ 0 ≤ y ∧ y < dev.height.toNat

instance (dev : LcdDev) : DecidablePred (InScreen dev)
  | clear _ => inferInstanceAs (Decidable True)
  | point _ _ _ => inferInstanceAs (Decidable (_ ∧ _))
  | fastPoint _ _ _ => inferInstanceAs (Decidable (_ ∧ _))
  | fill _ _ _ _ _ => inferInstanceAs (Decidable (_ ∧ _))
  | colorFill _ _ _ _ _ => inferInstanceAs (Decidable (_ ∧ _))
  | flush _ _ _ _ _ => inferInstanceAs (Decidable (_ ∧ _))
  | hline _ _ _ _ => inferInstanceAs (Decidable (_ ∧ _))
  | blitLine _ _ _ _ => inferInstanceAs (Decidable (_ ∧ _))

/-- The points from (x1, y1) to (x2, y2). -/
def InArea (x1 y1 x2 y2 : ℕ) (p : ℕ × ℕ) : Prop := (x1 ≤ p.1 ∧ p.1 ≤ x2) ∧ y1 ≤ p.2 ∧ p.2 ≤ y2

instance (x1 y1 x2 y2 : ℕ) : DecidablePred (InArea x1 y1 x2 y2) := fun p => by unfold InArea; infer_instance

/-- What the call is for. -/
def brush : Draw → Brush (ℕ × ℕ) UInt16
  | clear color => .fill (fun _ => True) fun _ => color.toUInt16
  | point pointColor x y => .fill (· = (x.toNat, y.toNat)) fun _ => pointColor.toUInt16
  | fastPoint x y color => .fill (· = (x.toNat, y.toNat)) fun _ => color.toUInt16
  | fill sx sy ex ey color => .fill (InArea sx.toNat sy.toNat ex.toNat ey.toNat) fun _ => color.toUInt16
  | colorFill sx sy ex ey color => .fill (InArea sx.toNat sy.toNat ex.toNat ey.toNat) fun p =>
      color ((p.2 - sy.toNat) * (ex.toNat - sx.toNat + 1) + (p.1 - sx.toNat))
  | flush x1 y1 x2 y2 colorP => .fill (InArea x1.toNat y1.toNat x2.toNat y2.toNat) fun p =>
      colorP ((p.2 - y1.toNat) * (x2.toNat - x1.toNat + 1) + (p.1 - x1.toNat))
  | hline pixel x1 x2 y => .fill (InArea x1.toNat y.toNat x2.toNat y.toNat) fun _ => pixel
  | blitLine pixel x y size =>
      .fill (InArea x.toNat y.toNat (x.toNat + size - 1) y.toNat) fun p => pixel (p.1 - x.toNat)

end Draw

section
variable {dev : LcdDev} {c : Controller} {x y : UInt16}

/-- Only what a brush does inside the screen matters. -/
theorem Draws.congr {bs : List Bus} {b b' : Brush (ℕ × ℕ) UInt16} (h : Draws dev c bs b)
    (hb : ∀ p : ℕ × ℕ, p.1 < dev.width.toNat → p.2 < dev.height.toNat → b p = b' p) : Draws dev c bs b' where
  chip := h.chip
  ready := h.ready
  shows P hP p hx hy := by
    rw [h.shows P hP p hx hy, Brush.draw_apply, Brush.draw_apply, hb p hx hy]

/-- **A row of pixels.** -/
theorem draws_row (h : Ready dev c) (hx : x.toNat < dev.width.toNat) (hy : y.toNat < dev.height.toNat) {l : List UInt16}
    (hl : x.toNat + l.length ≤ dev.width.toNat) :
    Draws dev c (lcdSetCursor dev x y ++ lcdWriteRAMPrepare dev ++ l.map .ram) fun p a =>
      if p.2 = y.toNat ∧ x.toNat ≤ p.1 then (l[p.1 - x.toNat]?).getD a else a := by
  have hlen : l.length ≤ (dev.width.toNat - x.toNat) * (dev.height.toNat - y.toNat) :=
    Nat.le_trans (Nat.le_sub_of_add_le' hl) (Nat.le_mul_of_pos_right _ (Nat.sub_pos_of_lt hy))
  refine (draws_burst h hx hy hlen).congr fun p hpx hpy => funext fun a => ?_
  rw [burst]
  by_cases hrow : p.2 = y.toNat
  · simp [hrow, and_comm]
  · rw [if_neg fun hm : _ ∧ _ => hrow hm.1]
    split_ifs with hin
    · -- the rows below are beyond the list
      have hbelow : dev.width.toNat - x.toNat ≤ (p.2 - y.toNat) * (dev.width.toNat - x.toNat) :=
        Nat.le_mul_of_pos_left _ (by omega)
      rw [List.getElem?_eq_none (by omega), Option.getD_none]
    · rfl

theorem Draws.append {bs bs' : List Bus} {b b' : Brush (ℕ × ℕ) UInt16} (h : Draws dev c bs b)
    (h' : Draws dev (c.exec bs) bs' b') : Draws dev c (bs ++ bs') (b'.comp b) where
  chip := by rw [Controller.exec_append, h'.chip, h.chip]
  ready := by rw [Controller.exec_append]; exact h'.ready
  shows P hP := by rw [Controller.exec_append, Brush.draw_comp]; exact h'.shows _ (h.shows P hP)

theorem draws_nil (h : Ready dev c) {b : Brush (ℕ × ℕ) UInt16} (hb : ∀ p a, b p a = a) : Draws dev c [] b where
  chip := rfl
  ready := h
  shows P hP p hx hy := by rw [Brush.draw_apply, hb]; exact hP p hx hy

/-- The points of a row of `n` pixels from (x, y) on. -/
theorem draws_line (h : Ready dev c) (hx : x.toNat < dev.width.toNat) (hy : y.toNat < dev.height.toNat) {f : ℕ → UInt16}
    {n : ℕ} (hn : x.toNat + n ≤ dev.width.toNat) :
    Draws dev c (lcdSetCursor dev x y ++ lcdWriteRAMPrepare dev ++ ((List.range n).map f).map .ram)
      (.fill (fun p => p.2 = y.toNat ∧ x.toNat ≤ p.1 ∧ p.1 < x.toNat + n) fun p => f (p.1 - x.toNat)) := by
  refine (draws_row h hx hy (by simpa using hn)).congr fun p _ _ => funext fun a => ?_
  rw [Brush.fill]
  by_cases hin : p.2 = y.toNat ∧ x.toNat ≤ p.1
  · rw [if_pos hin]
    rcases Nat.lt_or_ge (p.1 - x.toNat) n with hlt | hge
    · rw [if_pos ⟨hin.1, hin.2, by omega⟩]
      simp [hlt]
    · rw [if_neg fun hm => absurd hm.2.2 (by omega)]
      simp [hge]
  · rw [if_neg hin, if_neg fun hm => hin ⟨hm.1, hm.2.1⟩]

/-- The writes of `k` rows. -/
def rowsBus (dev : LcdDev) (sx sy : UInt16) (n : ℕ) (color : ℕ → ℕ → UInt16) (k : ℕ) : List Bus :=
  (List.range k).flatMap fun i => lcdSetCursor dev sx (sy + UInt16.ofNat i) ++ lcdWriteRAMPrepare dev ++
    ((List.range n).map (color i)).map .ram

theorem rowsBus_succ (sx sy : UInt16) (n : ℕ) (color : ℕ → ℕ → UInt16) (k : ℕ) :
    rowsBus dev sx sy n color (k + 1) = rowsBus dev sx sy n color k ++
      (lcdSetCursor dev sx (sy + UInt16.ofNat k) ++ lcdWriteRAMPrepare dev ++
        ((List.range n).map (color k)).map .ram) := by
  simp [rowsBus, List.range_succ]

theorem toNat_row {sy H : UInt16} {k : ℕ} (hk : sy.toNat + k < H.toNat) :
    (sy + UInt16.ofNat k).toNat = sy.toNat + k := by
  have := H.toNat_lt
  rw [UInt16.toNat_add, UInt16.toNat_ofNat']
  omega

/-- **Rows of pixels**, one below the other. -/
theorem draws_rows (h : Ready dev c) {sx sy : UInt16} {n : ℕ} {color : ℕ → ℕ → UInt16} (hx : sx.toNat < dev.width.toNat)
    (hn : sx.toNat + n ≤ dev.width.toNat) {k : ℕ} (hk : sy.toNat + k ≤ dev.height.toNat) :
    Draws dev c (rowsBus dev sx sy n color k)
      (.fill (fun p => (sy.toNat ≤ p.2 ∧ p.2 < sy.toNat + k) ∧ sx.toNat ≤ p.1 ∧ p.1 < sx.toNat + n)
        fun p => color (p.2 - sy.toNat) (p.1 - sx.toNat)) := by
  induction k with
  | zero => exact draws_nil h fun p a => if_neg fun hm => absurd hm.1 (by omega)
  | succ k ih =>
    have hrow : (sy + UInt16.ofNat k).toNat = sy.toNat + k := toNat_row (H := dev.height) (by omega)
    have hfirst := ih (by omega)
    have hlast := draws_line (f := color k) hfirst.ready hx (by rw [hrow]; omega) hn
    rw [rowsBus_succ]
    refine (hfirst.append hlast).congr fun p _ _ => funext fun a => ?_
    rw [Brush.comp, hrow]
    by_cases hp : p.2 = sy.toNat + k
    · -- the last row
      simp only [Brush.fill, hp, true_and, Nat.add_sub_cancel_left]
      refine if_congr ?_ rfl (if_neg fun hm => absurd hm.1.2 (by omega))
      exact (and_iff_right ⟨by omega, by omega⟩).symm
    · have hrows : sy.toNat ≤ p.2 ∧ p.2 < sy.toNat + k ↔ sy.toNat ≤ p.2 ∧ p.2 < sy.toNat + (k + 1) := by omega
      simp only [Brush.fill, hp, false_and, if_false, hrows]

/-! ## The loops over the rows -/

theorem lcdColorFill_eq {sx sy ex ey : UInt16} {color : ℕ → UInt16} {fuel : ℕ} (hfuel : (ey - sy + 1).toNat < fuel) :
    lcdColorFill dev fuel sx sy ex ey color = some (rowsBus dev sx sy (ex - sx + 1).toNat
      (fun i j => color (i * (ex - sx + 1).toNat + j)) (ey - sy + 1).toNat) := by
  have hpass {k : ℕ} (hk : k ≤ (ey - sy + 1).toNat) : (UInt16.ofNat k).toNat = k := by
    have := (ey - sy + 1).toNat_lt
    rw [UInt16.toNat_ofNat']
    omega
  refine loop_states (S := fun k => (UInt16.ofNat k, rowsBus dev sx sy (ex - sx + 1).toNat
    (fun i j => color (i * (ex - sx + 1).toNat + j)) k)) (fun k hk => ?_) ?_ hfuel
  · have hlt : UInt16.ofNat k < ey - sy + 1 := by
      rw [UInt16.lt_iff_toNat_lt, hpass (Nat.le_of_lt hk)]
      exact hk
    rw [colorFillStep, if_pos hlt, rowsBus_succ, hpass (Nat.le_of_lt hk), UInt16.ofNat_add]
    rfl
  · have hend : ¬ UInt16.ofNat (ey - sy + 1).toNat < ey - sy + 1 := by
      rw [UInt16.lt_iff_toNat_lt, hpass (Nat.le_refl _)]
      exact Nat.lt_irrefl _
    rw [colorFillStep, if_neg hend]

theorem lcdFill_eq {sx sy ex ey : UInt16} {color : UInt32} {fuel : ℕ} (hy : sy ≤ ey) (hey : ey.toNat < 65535)
    (hfuel : ey.toNat - sy.toNat + 1 < fuel) :
    lcdFill dev fuel sx sy ex ey color = some (rowsBus dev sx sy (ex - sx + 1).toNat
      (fun _ _ => color.toUInt16) (ey.toNat - sy.toNat + 1)) := by
  have hle : sy.toNat ≤ ey.toNat := UInt16.le_iff_toNat_le.1 hy
  have hrow {k : ℕ} (hk : k ≤ ey.toNat - sy.toNat + 1) : (sy + UInt16.ofNat k).toNat = sy.toNat + k := by
    rw [UInt16.toNat_add, UInt16.toNat_ofNat']
    omega
  have hstart : ((sy, []) : UInt16 × List Bus) = (sy + UInt16.ofNat 0, []) := by simp
  rw [lcdFill, hstart]
  refine loop_states (S := fun k => (sy + UInt16.ofNat k, rowsBus dev sx sy (ex - sx + 1).toNat
    (fun _ _ => color.toUInt16) k)) (fun k hk => ?_) ?_ hfuel
  · have hin : sy + UInt16.ofNat k ≤ ey := by
      rw [UInt16.le_iff_toNat_le, hrow (Nat.le_of_lt hk)]
      omega
    rw [fillStep, if_pos hin, rowsBus_succ, UInt16.ofNat_add, ← UInt16.add_assoc, List.map_const',
      List.length_range]
    rfl
  · have hend : ¬ sy + UInt16.ofNat (ey.toNat - sy.toNat + 1) ≤ ey := by
      rw [UInt16.le_iff_toNat_le, hrow (Nat.le_refl _)]
      omega
    rw [fillStep, if_neg hend]

/-- Down to the last row that 16 bits can count, `LCD_Fill` does not end. -/
theorem lcdFill_forever (fuel : ℕ) (sx sy ex : UInt16) (color : UInt32) :
    lcdFill dev fuel sx sy ex 65535 color = none := by
  refine loop_forever (fun s => ⟨_, if_pos ?_⟩) fuel _
  rw [UInt16.le_iff_toNat_le]
  exact Nat.le_of_lt_succ s.1.toNat_lt

/-! ## Single points -/

theorem draws_point (h : Ready dev c) (hx : x.toNat < dev.width.toNat) (hy : y.toNat < dev.height.toNat)
    (color : UInt32) :
    Draws dev c (lcdDrawPoint dev color x y) (.fill (· = (x.toNat, y.toNat)) fun _ => color.toUInt16) := by
  refine (draws_line (f := fun _ => color.toUInt16) (n := 1) h hx hy (by omega)).congr fun p _ _ => funext fun a => ?_
  have hp : p = (x.toNat, y.toNat) ↔ p.2 = y.toNat ∧ x.toNat ≤ p.1 ∧ p.1 < x.toNat + 1 := by
    rw [Prod.ext_iff]
    omega
  simp only [Brush.fill, hp]

/-- On the controllers that keep the far edges, the fast way is the same. -/
theorem fastDrawPoint_eq (h : Ready dev c) (hssd : c.chip ≠ .ssd1963) (x y : UInt16) (color : UInt32) :
    lcdFastDrawPoint dev x y color = lcdDrawPoint dev color x y := by
  have hid : dev.id ≠ 0x1963 := by
    rw [h.id]
    cases hc : c.chip <;> first | decide | exact absurd hc hssd
  simp only [lcdFastDrawPoint, lcdDrawPoint, lcdSetCursor, lcdWriteRAMPrepare, hid, if_false, List.append_assoc]
  rfl

theorem exec_pixel {r v : UInt16} (hr : c.chip.slot r 0 = .pixel) : c.exec [.reg r, .ram v] =
    { c with index := r, argc := 1, pos := advance c.span.1 c.span.2 (0, 0)
             gram := Function.update c.gram (c.cell (0, 0)) v } := by
  rw [Controller.exec_cons, Controller.exec_cons, Controller.exec_nil, Controller.write_reg, Controller.write_pixel hr]
  rfl

/-- A window of one point. -/
def pointEdges (col page : UInt16) : Edge → ℕ
  | .sc => col.toNat
  | .ec => col.toNat
  | .sp => page.toNat
  | .ep => page.toNat

def narrow (c : Controller) (col page : UInt16) : Controller := { c with edge := pointEdges col page }

theorem exec_columnsPages (hchip : c.chip ≠ .nt35510) (col page : UInt16) (bs : List Bus) :
    ∃ i n, c.exec (.reg 0x2A :: wrBytes col.toNat ++ wrBytes col.toNat ++
        (.reg 0x2B :: wrBytes page.toNat ++ wrBytes page.toNat ++ bs)) =
      ({ narrow c col page with index := i, argc := n, pos := (0, 0) } : Controller).exec bs := by
  have hword (z : UInt16) : ((z.toNat : ℤ) % 65536).toNat = z.toNat := by have := z.toNat_lt; omega
  obtain ⟨chip, index, argc, edge, order, pos, gram⟩ := c
  have hcol : ∀ n, chip.slot 0x2A n = .edges .sc .ec n := slot_columns hchip
  have hpage : ∀ n, chip.slot 0x2B n = .edges .sp .ep n := slot_pages hchip
  refine ⟨0x2B, 4, ?_⟩
  rw [Controller.exec_twoEdges rfl hcol, Controller.exec_twoEdges rfl hpage, hword, hword]
  refine congrArg (fun f => (Controller.mk _ _ _ f _ _ _).exec bs) (funext fun e => ?_)
  cases e <;> rfl

theorem exec_pagesColumns (hchip : c.chip ≠ .nt35510) (col page : UInt16) (bs : List Bus) :
    ∃ i n, c.exec (.reg 0x2B :: wrBytes page.toNat ++ wrBytes page.toNat ++
        (.reg 0x2A :: wrBytes col.toNat ++ wrBytes col.toNat ++ bs)) =
      ({ narrow c col page with index := i, argc := n, pos := (0, 0) } : Controller).exec bs := by
  have hword (z : UInt16) : ((z.toNat : ℤ) % 65536).toNat = z.toNat := by have := z.toNat_lt; omega
  obtain ⟨chip, index, argc, edge, order, pos, gram⟩ := c
  have hcol : ∀ n, chip.slot 0x2A n = .edges .sc .ec n := slot_columns hchip
  have hpage : ∀ n, chip.slot 0x2B n = .edges .sp .ep n := slot_pages hchip
  refine ⟨0x2A, 4, ?_⟩
  rw [Controller.exec_twoEdges rfl hpage, Controller.exec_twoEdges rfl hcol, hword, hword]
  refine congrArg (fun f => (Controller.mk _ _ _ f _ _ _).exec bs) (funext fun e => ?_)
  cases e <;> rfl

/-- The SSD1963 gets a window of one point. -/
theorem exec_fastWindow (h : Ready dev c) (hssd : c.chip = .ssd1963) (hx : x.toNat < dev.width.toNat) (color : UInt32) :
    ∃ i n col page, (narrow c col page).cell (0, 0) = place c.chip dev.dir (x.toNat, y.toNat) ∧
      c.exec (lcdFastDrawPoint dev x y color) =
        ({ narrow c col page with index := i, argc := n, pos := (0, 0) } : Controller).exec
          [.reg 0x2C, .ram color.toUInt16] := by
  have hregs : c.chip ≠ .nt35510 := by rw [hssd]; decide
  have hwram : dev.wramcmd = 0x2C := by
    have hcmd : dev.wramcmd = (lcdCommands c.chip dev.dir).1 := congrArg (·.1) h.commands
    rw [hcmd, lcdCommands, if_neg hregs]
    split_ifs <;> rfl
  rcases h.dir with hdir | hdir
  · have hturned : Turned c.chip dev.dir := .inr ⟨hdir, hssd⟩
    obtain ⟨hsetx, hsety⟩ := h.commands_across ⟨hturned, hssd⟩
    have hbus : lcdFastDrawPoint dev x y color =
        .reg 0x2B :: wrBytes (dev.width - 1 - x).toNat ++ wrBytes (dev.width - 1 - x).toNat ++
          (.reg 0x2A :: wrBytes y.toNat ++ wrBytes y.toNat ++ [.reg 0x2C, .ram color.toUInt16]) := by
      simp [lcdFastDrawPoint, h.id, hssd, Chip.id, hsetx, hsety, hwram, hdir]
    obtain ⟨i, n, hexec⟩ := exec_pagesColumns hregs y (dev.width - 1 - x) [.reg 0x2C, .ram color.toUInt16]
    refine ⟨i, n, y, dev.width - 1 - x, ?_, hbus ▸ hexec⟩
    obtain ⟨hmv, hmx, hmy⟩ : (narrow c y (dev.width - 1 - x)).mv = true ∧ (narrow c y (dev.width - 1 - x)).mx = false ∧
        (narrow c y (dev.width - 1 - x)).my = true := h.order_of_turned hturned
    have hw := h.width
    rw [screenSize, if_pos hturned] at hw
    rw [Controller.cell_of_ssd1963 (c := narrow c _ _) hssd, place, if_pos hturned]
    simp only [hmv, hmx, hmy]
    exact Prod.ext rfl ((toNat_mirror hx).trans (by rw [hw]))
  · have hturned : ¬ Turned c.chip dev.dir := by simp [Turned, hdir, hssd]
    obtain ⟨hsetx, hsety⟩ := h.commands_along hregs fun hm => hturned hm.1
    have hbus : lcdFastDrawPoint dev x y color =
        .reg 0x2A :: wrBytes x.toNat ++ wrBytes x.toNat ++
          (.reg 0x2B :: wrBytes y.toNat ++ wrBytes y.toNat ++ [.reg 0x2C, .ram color.toUInt16]) := by
      simp [lcdFastDrawPoint, h.id, hssd, Chip.id, hsetx, hsety, hwram, hdir]
    obtain ⟨i, n, hexec⟩ := exec_columnsPages hregs x y [.reg 0x2C, .ram color.toUInt16]
    refine ⟨i, n, x, y, ?_, hbus ▸ hexec⟩
    obtain ⟨hmv, hmx, hmy⟩ : (narrow c x y).mv = false ∧ (narrow c x y).mx = false ∧ (narrow c x y).my = false :=
      h.order_of_straight hturned
    rw [Controller.cell_of_ssd1963 (c := narrow c _ _) hssd, place, if_neg hturned]
    simp only [hmv, hmx, hmy]
    rfl

theorem draws_fastPoint (h : Ready dev c) (hx : x.toNat < dev.width.toNat) (hy : y.toNat < dev.height.toNat)
    (color : UInt32) :
    Draws dev c (lcdFastDrawPoint dev x y color) (.fill (· = (x.toNat, y.toNat)) fun _ => color.toUInt16) := by
  by_cases hssd : c.chip = .ssd1963
  · obtain ⟨i, n, col, page, hcell, hexec⟩ := exec_fastWindow (y := y) h hssd hx color
    have hpixel : c.chip.slot 0x2C 0 = .pixel := by rw [hssd]; rfl
    replace hexec := hexec.trans
      (exec_pixel (c := { narrow c col page with index := i, argc := n, pos := (0, 0) }) hpixel)
    refine ⟨by rw [hexec]; rfl, ?_, ?_⟩ <;> rw [hexec]
    · exact ⟨h.toKnown, h.order, fun hne => absurd hssd hne, fun hne => absurd hssd hne⟩
    intro P hP p hpx hpy
    show Function.update c.gram ((narrow c col page).cell (0, 0)) color.toUInt16 (place c.chip dev.dir p) = _
    rw [hcell, Brush.draw_apply, Brush.fill]
    split_ifs with hp
    · rw [hp, Function.update_self]
    · rw [Function.update_of_ne fun heq => hp (place_injective (h.width ▸ hpx) (h.width ▸ hx) heq), hP p hpx hpy]
  · rw [fastDrawPoint_eq h hssd]
    exact draws_point h hx hy color

/-! ## Every call -/

theorem draws_clear (h : Ready dev c) (color : UInt32) : Draws dev c (lcdClear dev color) (Draw.clear color).brush := by
  have hsize := screenSize_pos c.chip dev.dir
  rw [← h.width, ← h.height] at hsize
  have htotal : (dev.width.toUInt32 * dev.height.toUInt32).toNat = dev.width.toNat * dev.height.toNat := by
    have hlt := Nat.mul_lt_mul'' dev.width.toNat_lt dev.height.toNat_lt
    rw [UInt32.toNat_mul, UInt16.toNat_toUInt32, UInt16.toNat_toUInt32]
    exact Nat.mod_eq_of_lt hlt
  refine (draws_burst (x := 0) (y := 0) (l := List.replicate _ color.toUInt16) h hsize.1 hsize.2
    (by simp [htotal])).congr fun p hpx hpy => funext fun a => ?_
  have hin : p.2 * dev.width.toNat + p.1 < dev.width.toNat * dev.height.toNat := by
    have hrows := Nat.mul_le_mul_right dev.width.toNat (Nat.succ_le_of_lt hpy)
    rw [Nat.succ_mul, Nat.mul_comm dev.height.toNat] at hrows
    omega
  simp [burst, Draw.brush, Brush.fill, htotal, hin]

/-- Rows of pixels that fill an area. -/
theorem draws_area (h : Ready dev c) {sx sy : UInt16} {ex ey n k : ℕ} {color : ℕ → ℕ → UInt16}
    (hn : sx.toNat + n = ex + 1)
    (hk : sy.toNat + k = ey + 1) (hx : sx.toNat ≤ ex) (hex : ex < dev.width.toNat) (hey : ey < dev.height.toNat) :
    Draws dev c (rowsBus dev sx sy n color k)
      (.fill (Draw.InArea sx.toNat sy.toNat ex ey) fun p => color (p.2 - sy.toNat) (p.1 - sx.toNat)) := by
  refine (draws_rows h (by omega) (by omega) (by omega)).congr fun p _ _ => funext fun a => if_congr ?_ rfl rfl
  rw [Draw.InArea, hn, hk]
  omega

/-- A row of pixels is an area. -/
theorem draws_areaLine (h : Ready dev c) (x y : UInt16) (ex n : ℕ) (f : ℕ → UInt16) (hn : x.toNat + n = ex + 1)
    (hx : x.toNat ≤ ex) (hex : ex < dev.width.toNat) (hy : y.toNat < dev.height.toNat) :
    Draws dev c (lcdSetCursor dev x y ++ lcdWriteRAMPrepare dev ++ ((List.range n).map f).map .ram)
      (.fill (Draw.InArea x.toNat y.toNat ex y.toNat) fun p => f (p.1 - x.toNat)) := by
  refine (draws_line h (by omega) hy (by omega)).congr fun p _ _ => funext fun a => if_congr ?_ rfl rfl
  rw [Draw.InArea, hn]
  omega

theorem toNat_ofInt_screen {z : ℤ} {w : UInt16} (h₀ : 0 ≤ z) (h : z < w.toNat) : (UInt16.ofInt z).toNat = z.toNat := by
  have := w.toNat_lt
  rw [UInt16.ofInt, UInt16.toNat_ofNat']
  omega

theorem toNat_extent {a b : UInt16} (hab : a ≤ b) (hb : b.toNat < 65535) :
    (b - a + 1).toNat = b.toNat - a.toNat + 1 := by
  rw [UInt16.toNat_add, UInt16.toNat_sub_of_le _ _ hab]
  simp
  omega

theorem draws_colorFill (h : Ready dev c) {sx sy ex ey : UInt16} {color : ℕ → UInt16}
    (hd : (Draw.colorFill sx sy ex ey color).InScreen dev) {fuel : ℕ} (hfuel : 65536 < fuel) :
    ∃ bs, lcdColorFill dev fuel sx sy ex ey color = some bs ∧
      Draws dev c bs (Draw.colorFill sx sy ex ey color).brush := by
  obtain ⟨hx, hy, hex, hey⟩ := hd
  have hw := dev.width.toNat_lt
  have hh := dev.height.toNat_lt
  have hxle := UInt16.le_iff_toNat_le.1 hx
  have hyle := UInt16.le_iff_toNat_le.1 hy
  have hn := toNat_extent hx (by omega)
  have hk := toNat_extent hy (by omega)
  refine ⟨_, lcdColorFill_eq (by omega), ?_⟩
  rw [hn]
  exact draws_area h (by omega) (by omega) hxle hex hey

/-- **A call inside the screen** draws what it is for. -/
theorem draws_draw (h : Ready dev c) {d : Draw} (hd : d.InScreen dev) {fuel : ℕ} (hfuel : 65536 < fuel) :
    ∃ bs, d.bus dev fuel = some bs ∧ Draws dev c bs d.brush := by
  have hw := dev.width.toNat_lt
  have hh := dev.height.toNat_lt
  cases d with
  | clear color => exact ⟨_, rfl, draws_clear h color⟩
  | point pointColor x y => exact ⟨_, rfl, draws_point h hd.1 hd.2 pointColor⟩
  | fastPoint x y color => exact ⟨_, rfl, draws_fastPoint h hd.1 hd.2 color⟩
  | fill sx sy ex ey color =>
    obtain ⟨hx, hy, hex, hey⟩ := hd
    have hxle := UInt16.le_iff_toNat_le.1 hx
    have hyle := UInt16.le_iff_toNat_le.1 hy
    have hn := toNat_extent hx (by omega)
    exact ⟨_, lcdFill_eq hy (by omega) (by omega), draws_area h (by omega) (by omega) hxle hex hey⟩
  | colorFill sx sy ex ey color => exact draws_colorFill h hd hfuel
  | flush x1 y1 x2 y2 colorP =>
    obtain ⟨⟨hx1, hx, hx2⟩, hy1, hy, hy2⟩ := hd
    have hx1n := toNat_ofInt_screen (w := dev.width) hx1 (by omega)
    have hx2n := toNat_ofInt_screen (w := dev.width) (z := x2) (by omega) hx2
    have hy1n := toNat_ofInt_screen (w := dev.height) hy1 (by omega)
    have hy2n := toNat_ofInt_screen (w := dev.height) (z := y2) (by omega) hy2
    have hfits : (Draw.colorFill (.ofInt x1) (.ofInt y1) (.ofInt x2) (.ofInt y2) colorP).InScreen dev :=
      ⟨UInt16.le_iff_toNat_le.2 (by omega), UInt16.le_iff_toNat_le.2 (by omega), by omega, by omega⟩
    obtain ⟨bs, hbs, hdraws⟩ := draws_colorFill h hfits hfuel
    rw [Draw.brush, hx1n, hx2n, hy1n, hy2n] at hdraws
    exact ⟨bs, hbs, hdraws⟩
  | hline pixel x1 x2 y =>
    obtain ⟨hx1, hx, hx2, hy1, hy⟩ := hd
    have hx0 := toNat_ofInt_screen hx1 (Int.lt_of_le_of_lt hx hx2)
    have hy0 := toNat_ofInt_screen hy1 hy
    refine ⟨_, rfl, ?_⟩
    have hrow := draws_areaLine h (UInt16.ofInt x1) (UInt16.ofInt y) x2.toNat (x2 - x1 + 1).toNat (fun _ => pixel)
      (by omega) (by omega) (by omega) (by omega)
    rw [List.map_const', List.length_range, hx0, hy0] at hrow
    exact hrow
  | blitLine pixel x y size =>
    obtain ⟨hx1, hsize, hx, hy1, hy⟩ := hd
    have hx0 := toNat_ofInt_screen (w := dev.width) hx1 (by omega)
    have hy0 := toNat_ofInt_screen hy1 hy
    refine ⟨_, rfl, ?_⟩
    have hrow := draws_areaLine h (UInt16.ofInt x) (UInt16.ofInt y) (x.toNat + size - 1) size pixel
      (by omega) (by omega) (by omega) (by omega)
    rw [hx0, hy0] at hrow
    exact hrow

/-! ## Reading points -/

/-- The colour put together from the two words. -/
theorem colour_of_words (a s t : UInt16) :
    let g := (redGreen a s &&& 0xFF) <<< (8 : UInt16)
    (redGreen a s >>> (11 : UInt16)) <<< (11 : UInt16) ||| (g >>> (10 : UInt16)) <<< (5 : UInt16) |||
      blue a t >>> (11 : UInt16) = a := by
  refine UInt16.toBitVec_inj.1 (BitVec.eq_of_getLsbD_eq fun i hi => ?_)
  simp only [redGreen, blue, UInt16.toBitVec_or, UInt16.toBitVec_and, UInt16.toBitVec_shiftLeft,
    UInt16.toBitVec_shiftRight]
  interval_cases i <;> simp

/-- The command for reading pixels. -/
def readCommand (chip : Chip) : UInt16 := if chip = .nt35510 then 0x2E00 else 0x2E

/-- The controller from which a point is read. -/
theorem readPoint_eq (h : Ready dev c) (spare : ℕ → UInt16) {x y : ℤ} (hx : 0 ≤ x) (hy : 0 ≤ y)
    (hxw : x < dev.width.toNat) (hyh : y < dev.height.toNat) :
    ∃ n, lcdReadPoint dev spare x y c = (c.gram (place c.chip dev.dir (x.toNat, y.toNat)),
      { c.aim dev.dir x.toNat y.toNat with index := readCommand c.chip, argc := n, pos := (0, 0) }) := by
  have hx0 := toNat_ofInt_screen hx hxw
  have hy0 := toNat_ofInt_screen hy hyh
  obtain ⟨i, n, hcursor⟩ := exec_setCursor (x := UInt16.ofInt x) (y := UInt16.ofInt y) h (by omega) (by omega)
  rw [hx0, hy0] at hcursor
  have hcell (m : ℕ) : (Controller.mk c.chip (readCommand c.chip) m (cursorEdges c.chip dev.dir x.toNat y.toNat) c.order
      (0, 0) c.gram).cell (0, 0) = place c.chip dev.dir (x.toNat, y.toNat) := cell_aim h _ _ 0 0
  have hin : ¬ (x ≥ dev.width.toNat ∨ y ≥ dev.height.toNat) := by omega
  have hcommand (a : Controller) : (if dev.id = 0x9341 ∨ dev.id = 0x5310 ∨ dev.id = 0x1963 then a.exec [.reg 0x2E]
      else if dev.id = 0x5510 then a.exec [.reg 0x2E00] else a) =
      { a with index := readCommand c.chip, argc := 0, pos := (0, 0) } := by
    rw [h.id]
    cases c.chip <;> rfl
  rw [lcdReadPoint, if_neg hin, hcursor]
  simp only [hcommand, Controller.read, hcell]
  by_cases hssd : c.chip = .ssd1963
  · have hid : dev.id = 0x1963 := by rw [h.id, hssd]; rfl
    refine ⟨1, ?_⟩
    rw [if_pos hid, if_pos hssd]
    rfl
  · have hid : dev.id ≠ 0x1963 := by
      rw [h.id]
      cases hc : c.chip <;> first | decide | exact absurd hc hssd
    refine ⟨3, ?_⟩
    rw [if_neg hid, if_neg hssd, if_neg hssd]
    exact Prod.ext (colour_of_words _ _ _) rfl

/-- **Reading a point** reads the picture, and changes nothing. -/
theorem readPoint_shows (h : Ready dev c) {P : ℕ × ℕ → UInt16} (hP : Shows dev c P) (spare : ℕ → UInt16) {x y : ℤ}
    (hx : 0 ≤ x) (hy : 0 ≤ y) :
    let r := lcdReadPoint dev spare x y c
    r.1 = (if x < dev.width.toNat ∧ y < dev.height.toNat then P (x.toNat, y.toNat) else 0) ∧ r.2.chip = c.chip ∧
      Ready dev r.2 ∧ Shows dev r.2 P := by
  by_cases hin : x < dev.width.toNat ∧ y < dev.height.toNat
  · obtain ⟨n, hread⟩ := readPoint_eq h spare hx hy hin.1 hin.2
    rw [if_pos hin, hread]
    refine ⟨hP _ ?_ ?_, rfl, ⟨h.toKnown, h.order, (h.aim _ _).right, (h.aim _ _).bottom⟩, hP⟩
    · show x.toNat < _
      omega
    · show y.toNat < _
      omega
  · have hout : x ≥ dev.width.toNat ∨ y ≥ dev.height.toNat := by omega
    rw [if_neg hin, lcdReadPoint, if_pos hout]
    exact ⟨rfl, rfl, h, hP⟩

end

/-! ## Runs -/

/-- A call that draws or reads. -/
inductive Call where
  | draw (d : Draw)
  | read (x y : ℤ) (spare : ℕ → UInt16)

namespace Call

/-- What a call does with the controller and the colours read so far. -/
def step (dev : LcdDev) (fuel : ℕ) : Call → Controller × List UInt16 → Option (Controller × List UInt16)
  | draw d, s => (d.bus dev fuel).map fun bs => (s.1.exec bs, s.2)
  | read x y spare, s =>
    let r := lcdReadPoint dev spare x y s.1
    some (r.2, s.2 ++ [r.1])

/-- What it is meant to do with the picture. -/
def spec (dev : LcdDev) (s : (ℕ × ℕ → UInt16) × List UInt16) : Call → (ℕ × ℕ → UInt16) × List UInt16
  | draw d => (d.brush.draw s.1, s.2)
  | read x y _ => (s.1, s.2 ++ [if x < dev.width.toNat ∧ y < dev.height.toNat then s.1 (x.toNat, y.toNat) else 0])

def InScreen (dev : LcdDev) : Call → Prop
  | draw d => d.InScreen dev
  | read x y _ => 0 ≤ x ∧ 0 ≤ y

instance (dev : LcdDev) : DecidablePred (InScreen dev)
  | draw d => inferInstanceAs (Decidable (d.InScreen dev))
  | read _ _ _ => inferInstanceAs (Decidable (_ ∧ _))

end Call

theorem step_spec {dev : LcdDev} {fuel : ℕ} (hfuel : 65536 < fuel) {s : Controller × List UInt16}
    {t : (ℕ × ℕ → UInt16) × List UInt16} {a : Call} (ha : a.InScreen dev)
    (h : Ready dev s.1 ∧ Shows dev s.1 t.1 ∧ s.2 = t.2) :
    ∃ s', a.step dev fuel s = some s' ∧
      Ready dev s'.1 ∧ Shows dev s'.1 (Call.spec dev t a).1 ∧ s'.2 = (Call.spec dev t a).2 := by
  obtain ⟨hready, hshows, hout⟩ := h
  cases a with
  | draw d =>
    obtain ⟨bs, hbs, hdraws⟩ := draws_draw hready ha hfuel
    exact ⟨_, congrArg (Option.map _) hbs, hdraws.ready, hdraws.shows _ hshows, hout⟩
  | read x y spare =>
    obtain ⟨hcolour, -, hready', hshows'⟩ := readPoint_shows hready hshows spare ha.1 ha.2
    exact ⟨_, rfl, hready', hshows', congrArg₂ (fun l a => l ++ [a]) hout hcolour⟩

end DataRecorder.Lcd
