/-
  What the drawing functions show on the screen.

  The screen is the frame memory as it is looked at: in the orientation chosen with
  `LCD_Display_Dir`, its corner (0, 0) is at the top left.  `Ready` is the state in
  which the driver keeps the controller, and `Shows` relates it to a picture.

  * `displayDir_ready`: `LCD_Display_Dir` brings any controller into that state;
  * `exec_setCursor`: the window after `LCD_SetCursor`;
  * `draws_burst`: pixels written from a cursor on.
-/
import DataRecorder.Lcd.Driver

namespace DataRecorder.Lcd

open Base

/-- The screen lies the other way than the frame memory. -/
def Turned (chip : Chip) (dir : UInt8) : Prop := dir = 1 ∧ chip ≠ .ssd1963 ∨ dir = 0 ∧ chip = .ssd1963

instance (chip : Chip) (dir : UInt8) : Decidable (Turned chip dir) := by unfold Turned; infer_instance

/-- Width and height of the screen. -/
def screenSize (chip : Chip) (dir : UInt8) : ℕ × ℕ :=
  if Turned chip dir then (chip.pages, chip.columns) else (chip.columns, chip.pages)

/-- Where the frame memory has the point `p` of the screen. -/
def place (chip : Chip) (dir : UInt8) (p : ℕ × ℕ) : ℕ × ℕ :=
  if Turned chip dir then (p.2, chip.pages - 1 - p.1) else p

/-- The commands for writing pixels and for the edges in x and in y. -/
def lcdCommands (chip : Chip) (dir : UInt8) : UInt16 × UInt16 × UInt16 :=
  if chip = .nt35510 then (0x2C00, 0x2A00, 0x2B00)
  else if Turned chip dir ∧ chip = .ssd1963 then (0x2C, 0x2B, 0x2A) else (0x2C, 0x2A, 0x2B)

/-- `lcddev` holds the commands of the controller. -/
structure Speaks (dev : LcdDev) (chip : Chip) : Prop where
  id : dev.id = chip.id
  dir : dev.dir = 0 ∨ dev.dir = 1
  commands : (dev.wramcmd, dev.setxcmd, dev.setycmd) = lcdCommands chip dev.dir

/-- `lcddev` as `LCD_Display_Dir` leaves it. -/
structure Known (dev : LcdDev) (chip : Chip) : Prop extends Speaks dev chip where
  width : dev.width.toNat = (screenSize chip dev.dir).1
  height : dev.height.toNat = (screenSize chip dev.dir).2

/-- The controller as the driver expects it between two calls. -/
structure Ready (dev : LcdDev) (c : Controller) : Prop extends Known dev c.chip where
  order : (c.mv, c.mx, c.my) = if Turned c.chip dev.dir then (true, false, true) else (false, false, false)
  right : c.chip ≠ .ssd1963 → c.edge .ec + 1 = dev.width.toNat
  bottom : c.chip ≠ .ssd1963 → c.edge .ep + 1 = dev.height.toNat

/-- The screen shows the picture `P`. -/
def Shows (dev : LcdDev) (c : Controller) (P : ℕ × ℕ → UInt16) : Prop :=
  ∀ p : ℕ × ℕ, p.1 < dev.width.toNat → p.2 < dev.height.toNat → c.gram (place c.chip dev.dir p) = P p

/-- The writes `bs` draw `b` on the screen, and leave the controller ready. -/
structure Draws (dev : LcdDev) (c : Controller) (bs : List Bus) (b : Brush (ℕ × ℕ) UInt16) : Prop where
  chip : (c.exec bs).chip = c.chip
  ready : Ready dev (c.exec bs)
  shows : ∀ P, Shows dev c P → Shows dev (c.exec bs) (b.draw P)

/-! ## Windows -/

namespace Controller
variable {c : Controller}

theorem exec_oneEdge {chip : Chip} {r : UInt16} {e e' : Edge} {x : ℤ} {bs : List Bus} (hchip : c.chip = chip)
    (hslot : ∀ n, chip.slot r n = .edges e e' n) : c.exec (.reg r :: wrBytes x ++ bs) =
      { c with index := r, argc := 2, pos := (0, 0), edge := Function.update c.edge e (x % 65536).toNat }.exec bs := by
  subst hchip
  exact exec_edge (c := c.write (.reg r)) (hslot 0) (hslot 1)

theorem exec_twoEdges {chip : Chip} {r : UInt16} {e e' : Edge} {x x' : ℤ} {bs : List Bus} (hchip : c.chip = chip)
    (hslot : ∀ n, chip.slot r n = .edges e e' n) : c.exec (.reg r :: wrBytes x ++ wrBytes x' ++ bs) =
      { c with index := r, argc := 4, pos := (0, 0)
               edge := Function.update (Function.update c.edge e (x % 65536).toNat) e'
                 (x' % 65536).toNat }.exec bs := by
  subst hchip
  rw [List.append_assoc, exec_oneEdge rfl hslot]
  exact exec_edge (c := { c with index := r, argc := 2, pos := (0, 0), edge := _ }) (hslot 2) (hslot 3)

end Controller

/-- The edges that `LCD_SetCursor` leaves. -/
def cursorEdges (chip : Chip) (dir : UInt8) (x y : ℕ) : Edge → ℕ :=
  let size := screenSize chip dir
  if Turned chip dir ∧ chip = .ssd1963 then
    fun | .sc => y | .ec => size.2 - 1 | .sp => 0 | .ep => size.1 - 1 - x
  else fun | .sc => x | .ec => size.1 - 1 | .sp => y | .ep => size.2 - 1

theorem cursorEdges_across (chip : Chip) (dir : UInt8) (x y : ℕ) (h : Turned chip dir ∧ chip = .ssd1963) :
    cursorEdges chip dir x y .sc = y ∧ cursorEdges chip dir x y .ec = (screenSize chip dir).2 - 1 ∧
      cursorEdges chip dir x y .sp = 0 ∧ cursorEdges chip dir x y .ep = (screenSize chip dir).1 - 1 - x := by
  rw [cursorEdges, if_pos h]
  exact ⟨rfl, rfl, rfl, rfl⟩

theorem cursorEdges_along (chip : Chip) (dir : UInt8) (x y : ℕ) (h : ¬ (Turned chip dir ∧ chip = .ssd1963)) :
    cursorEdges chip dir x y .sc = x ∧ cursorEdges chip dir x y .ec = (screenSize chip dir).1 - 1 ∧
      cursorEdges chip dir x y .sp = y ∧ cursorEdges chip dir x y .ep = (screenSize chip dir).2 - 1 := by
  rw [cursorEdges, if_neg h]
  exact ⟨rfl, rfl, rfl, rfl⟩

section
variable {dev : LcdDev} {c : Controller} {x y : UInt16}

theorem Speaks.setxcmd_eq {chip : Chip} (h : Speaks dev chip) : dev.setxcmd = (lcdCommands chip dev.dir).2.1 :=
  congrArg (·.2.1) h.commands

theorem Speaks.setycmd_eq {chip : Chip} (h : Speaks dev chip) : dev.setycmd = (lcdCommands chip dev.dir).2.2 :=
  congrArg (·.2.2) h.commands

theorem Speaks.commands_along {chip : Chip} (h : Speaks dev chip) (hchip : chip ≠ .nt35510)
    (halong : ¬ (Turned chip dev.dir ∧ chip = .ssd1963)) : dev.setxcmd = 0x2A ∧ dev.setycmd = 0x2B := by
  rw [h.setxcmd_eq, h.setycmd_eq, lcdCommands, if_neg hchip, if_neg halong]
  exact ⟨rfl, rfl⟩

theorem Speaks.commands_across {chip : Chip} (h : Speaks dev chip) (hacross : Turned chip dev.dir ∧ chip = .ssd1963) :
    dev.setxcmd = 0x2B ∧ dev.setycmd = 0x2A := by
  have hchip : chip ≠ .nt35510 := by rw [hacross.2]; decide
  rw [h.setxcmd_eq, h.setycmd_eq, lcdCommands, if_neg hchip, if_pos hacross]
  exact ⟨rfl, rfl⟩

theorem slot_columns {chip : Chip} (hchip : chip ≠ .nt35510) (n : ℕ) : chip.slot 0x2A n = .edges .sc .ec n := by
  cases chip <;> first | rfl | exact absurd rfl hchip

theorem slot_pages {chip : Chip} (hchip : chip ≠ .nt35510) (n : ℕ) : chip.slot 0x2B n = .edges .sp .ep n := by
  cases chip <;> first | rfl | exact absurd rfl hchip

theorem setCursor_words {chip : Chip} (h : Speaks dev chip) (hregs : chip ≠ .nt35510) (hssd : chip ≠ .ssd1963) :
    lcdSetCursor dev x y = .reg 0x2A :: wrBytes x.toNat ++ (.reg 0x2B :: wrBytes y.toNat ++ []) := by
  obtain ⟨hsetx, hsety⟩ := h.commands_along hregs fun hm => hssd hm.2
  have hid : dev.id = 0x9341 ∨ dev.id = 0x5310 := by
    rw [h.id]
    cases chip with
    | ili9341 => exact .inl rfl
    | nt35310 => exact .inr rfl
    | nt35510 => exact absurd rfl hregs
    | ssd1963 => exact absurd rfl hssd
  rw [lcdSetCursor, if_pos hid, hsetx, hsety]
  simp

theorem setCursor_regs (h : Speaks dev .nt35510) :
    lcdSetCursor dev x y = wrBytesRegs 0x2A00 x.toNat ++ wrBytesRegs 0x2B00 y.toNat := by
  simp [lcdSetCursor, h.id, Chip.id, h.setxcmd_eq, h.setycmd_eq, lcdCommands]

/-- The SSD1963 lies across: x counts its pages from the bottom. -/
theorem setCursor_across (h : Speaks dev .ssd1963) (hdir : dev.dir = 0) : lcdSetCursor dev x y =
    .reg 0x2B :: wrBytes 0 ++ wrBytes (dev.width - 1 - x).toNat ++
      (.reg 0x2A :: wrBytes y.toNat ++ wrBytes (dev.height.toNat - 1) ++ []) := by
  have hzero : wrBytes 0 = [.ram 0, .ram 0] := by decide
  obtain ⟨hsetx, hsety⟩ := h.commands_across ⟨.inr ⟨hdir, rfl⟩, rfl⟩
  simp [lcdSetCursor, h.id, Chip.id, hsetx, hsety, hdir, hzero]

theorem setCursor_straight (h : Speaks dev .ssd1963) (hdir : dev.dir = 1) : lcdSetCursor dev x y =
    .reg 0x2A :: wrBytes x.toNat ++ wrBytes (dev.width.toNat - 1) ++
      (.reg 0x2B :: wrBytes y.toNat ++ wrBytes (dev.height.toNat - 1) ++ []) := by
  obtain ⟨hsetx, hsety⟩ := h.commands_along nofun fun hm => by simp [Turned, hdir] at hm
  simp [lcdSetCursor, h.id, Chip.id, hsetx, hsety, hdir]

/-- The edges of a window that covers the whole screen of `w` times `h` points. -/
def windowEdges (chip : Chip) (dir : UInt8) (w h : ℕ) : Edge → ℕ :=
  if Turned chip dir ∧ chip = .ssd1963 then fun | .sc => 0 | .ec => h - 1 | .sp => 0 | .ep => w - 1
  else fun | .sc => 0 | .ec => w - 1 | .sp => 0 | .ep => h - 1

theorem fullWindow_words {chip : Chip} (h : Speaks dev chip) (hchip : chip ≠ .nt35510) : fullWindow dev =
    .reg dev.setxcmd :: wrBytes 0 ++ wrBytes (dev.width.toNat - 1) ++
      (.reg dev.setycmd :: wrBytes 0 ++ wrBytes (dev.height.toNat - 1) ++ []) := by
  have hzero : wrBytes 0 = [.ram 0, .ram 0] := by decide
  have hid : dev.id ≠ 0x5510 := by rw [h.id]; cases chip <;> first | decide | exact absurd rfl hchip
  simp [fullWindow, hid, hzero]

theorem fullWindow_regs (h : Speaks dev .nt35510) : fullWindow dev =
    wrBytesRegs 0x2A00 0 ++ wrBytesRegs 0x2A02 (dev.width.toNat - 1) ++
      (wrBytesRegs 0x2B00 0 ++ wrBytesRegs 0x2B02 (dev.height.toNat - 1)) := by
  have hzero (r : UInt16) : wrBytesRegs r 0 = [.reg r, .ram 0, .reg (r + 1), .ram 0] := rfl
  simp [fullWindow, h.id, Chip.id, h.setxcmd_eq, h.setycmd_eq, lcdCommands, hzero]

theorem exec_fullWindow (h : Speaks dev c.chip) (hx : 0 < dev.width.toNat) (hy : 0 < dev.height.toNat) :
    ∃ i n, c.exec (fullWindow dev) =
      { c with index := i, argc := n, pos := (0, 0)
               edge := windowEdges c.chip dev.dir dev.width.toNat dev.height.toNat } := by
  have hlast (z : UInt16) (hz : 0 < z.toNat) : (((z.toNat : ℤ) - 1) % 65536).toNat = z.toNat - 1 := by
    have := z.toNat_lt
    omega
  by_cases hchip : c.chip = .nt35510
  · obtain ⟨chip, index, argc, edge, order, pos, gram⟩ := c
    cases hchip
    refine ⟨0x2B03, 1, ?_⟩
    rw [fullWindow_regs h]
    simp only [wrBytesRegs, List.cons_append, List.nil_append]
    rw [Controller.exec_edge_regs rfl rfl, Controller.exec_edge_regs rfl rfl, Controller.exec_edge_regs rfl rfl,
      Controller.exec_edge_regs rfl rfl, hlast _ hx, hlast _ hy, windowEdges, if_neg fun hm => nomatch hm.2]
    refine congrArg (Controller.mk _ _ _ · _ _ _) (funext fun e => ?_)
    cases e <;> rfl
  obtain ⟨chip, index, argc, edge, order, pos, gram⟩ := c
  have hcol : ∀ n, chip.slot 0x2A n = .edges .sc .ec n := slot_columns hchip
  have hpage : ∀ n, chip.slot 0x2B n = .edges .sp .ep n := slot_pages hchip
  rw [fullWindow_words h hchip, windowEdges]
  by_cases hacross : Turned chip dev.dir ∧ chip = .ssd1963
  · obtain ⟨hsetx, hsety⟩ := h.commands_across hacross
    refine ⟨0x2A, 4, ?_⟩
    rw [hsetx, hsety, Controller.exec_twoEdges rfl hpage,
      Controller.exec_twoEdges rfl hcol, hlast _ hx, hlast _ hy, if_pos hacross]
    refine congrArg (Controller.mk _ _ _ · _ _ _) (funext fun e => ?_)
    cases e <;> rfl
  · obtain ⟨hsetx, hsety⟩ := h.commands_along hchip hacross
    refine ⟨0x2B, 4, ?_⟩
    rw [hsetx, hsety, Controller.exec_twoEdges rfl hcol,
      Controller.exec_twoEdges rfl hpage, hlast _ hx, hlast _ hy, if_neg hacross]
    refine congrArg (Controller.mk _ _ _ · _ _ _) (funext fun e => ?_)
    cases e <;> rfl

/-- A coordinate counted from the other side. -/
theorem toNat_mirror {w : UInt16} (hx : x.toNat < w.toNat) : (w - 1 - x).toNat = w.toNat - 1 - x.toNat := by
  have hone : (1 : UInt16) ≤ w := UInt16.le_iff_toNat_le.2 (Nat.one_le_of_lt hx)
  have hle : x ≤ w - 1 := by
    rw [UInt16.le_iff_toNat_le, UInt16.toNat_sub_of_le _ _ hone]
    exact Nat.le_sub_one_of_lt hx
  rw [UInt16.toNat_sub_of_le _ _ hle, UInt16.toNat_sub_of_le _ _ hone]
  rfl

/-! ## Scan direction and orientation -/

theorem oriented_cases (dev : LcdDev) (r : UInt16) : dev.oriented r = dev ∨ dev.oriented r = dev.swap := by
  unfold LcdDev.oriented
  split_ifs <;> simp

theorem Speaks.oriented {chip : Chip} (h : Speaks dev chip) (r : UInt16) : Speaks (dev.oriented r) chip := by
  rcases oriented_cases dev r with heq | heq <;> rw [heq]
  · exact h
  · exact ⟨h.id, h.dir, h.commands⟩

theorem exec_scanDir (h : Speaks dev c.chip) (hx : 0 < dev.width.toNat) (hy : 0 < dev.height.toNat) (d : UInt8) :
    let r := scanRegval c.chip.id dev.dir d
    (lcdScanDir dev d).1 = dev.oriented r ∧ ∃ i n, c.exec (lcdScanDir dev d).2 =
      { c with index := i, argc := n, pos := (0, 0), order := r
               edge := windowEdges c.chip dev.dir (dev.oriented r).width.toNat (dev.oriented r).height.toNat } := by
  intro r
  have hid : dev.id = 0x9341 ∨ dev.id = 0x5310 ∨ dev.id = 0x5510 ∨ dev.id = 0x1963 := by
    rw [h.id]
    cases c.chip <;> decide
  have hdirreg : c.chip.slot (if dev.id = 0x5510 then 0x3600 else 0x36) 0 = .order := by
    rw [h.id]
    cases c.chip <;> decide
  have hscan : lcdScanDir dev d = (dev.oriented r,
      lcdWriteReg (if dev.id = 0x5510 then 0x3600 else 0x36) r ++ fullWindow (dev.oriented r)) := by
    rw [lcdScanDir, if_pos hid, h.id]
  have hsize : 0 < (dev.oriented r).width.toNat ∧ 0 < (dev.oriented r).height.toNat := by
    rcases oriented_cases dev r with heq | heq <;> rw [heq]
    · exact ⟨hx, hy⟩
    · exact ⟨hy, hx⟩
  have hdir : (dev.oriented r).dir = dev.dir := by
    rcases oriented_cases dev r with heq | heq <;> rw [heq]
    rfl
  have hwrite : c.exec (lcdWriteReg (if dev.id = 0x5510 then 0x3600 else 0x36) r) =
      { c with index := if dev.id = 0x5510 then 0x3600 else 0x36, argc := 1, pos := (0, 0), order := r } := by
    rw [lcdWriteReg, Controller.exec_cons, Controller.exec_cons, Controller.exec_nil, Controller.write_reg]
    simp only [Controller.write, hdirreg]
  rw [hscan, Controller.exec_append, hwrite]
  refine ⟨rfl, ?_⟩
  obtain ⟨i, n, hwindow⟩ := exec_fullWindow
    (c := { c with index := if dev.id = 0x5510 then 0x3600 else 0x36, argc := 1, pos := (0, 0), order := r })
    (h.oriented r) hsize.1 hsize.2
  rw [hdir] at hwindow
  exact ⟨i, n, hwindow⟩

theorem known_laid {chip : Chip} {dir : UInt8} (hid : dev.id = chip.id) (hdir : dir = 0 ∨ dir = 1) :
    Known (dev.laid dir) chip := by
  rcases hdir with rfl | rfl <;> cases chip <;>
    exact ⟨⟨by simp [LcdDev.laid, LcdDev.known, hid, Chip.id], by simp [LcdDev.laid, LcdDev.known, hid, Chip.id],
      by simp [LcdDev.laid, LcdDev.known, hid, Chip.id, lcdCommands, Turned]⟩,
      by simp [LcdDev.laid, LcdDev.known, hid, Chip.id, screenSize, Turned, Chip.columns, Chip.pages],
      by simp [LcdDev.laid, LcdDev.known, hid, Chip.id, screenSize, Turned, Chip.columns, Chip.pages]⟩

/-- The bits of the default direction. -/
theorem scanRegval_zero {chip : Chip} {dir : UInt8} (hdir : dir = 0 ∨ dir = 1) :
    let r := (scanRegval chip.id dir 0).toNat
    (r.testBit 5, r.testBit 6, r.testBit 7) =
      if Turned chip dir then (true, false, true) else (false, false, false) := by
  rcases hdir with rfl | rfl <;> cases chip <;> decide

theorem columns_lt_pages {chip : Chip} (h : chip ≠ .ssd1963) : chip.columns < chip.pages := by
  cases chip <;> first | decide | exact absurd rfl h

/-- The default direction leaves width and height as they are. -/
theorem oriented_default {chip : Chip} (h : Known dev chip) : dev.oriented (scanRegval chip.id dev.dir 0) = dev := by
  have hssd (hid : dev.id ≠ 0x1963) : chip ≠ .ssd1963 := by
    rintro rfl
    exact hid h.id
  have hbit (hid : dev.id ≠ 0x1963) : scanRegval chip.id dev.dir 0 &&& 0x20 ≠ 0 ↔ Turned chip dev.dir := by
    rcases h.dir with hdir | hdir <;> rw [hdir] <;> cases chip <;> decide
  rw [LcdDev.oriented]
  split_ifs with hid hset hlt hgt
  · rfl
  · -- turned, the screen is wider than it is high
    have hlong := columns_lt_pages (hssd hid)
    rw [UInt16.lt_iff_toNat_lt, h.width, h.height, screenSize, if_pos ((hbit hid).1 hset)] at hlt
    exact absurd hlt (Nat.lt_asymm hlong)
  · rfl
  · have hlong := columns_lt_pages (hssd hid)
    rw [gt_iff_lt, UInt16.lt_iff_toNat_lt, h.width, h.height, screenSize,
      if_neg fun hm => hset ((hbit hid).2 hm)] at hgt
    exact absurd hgt (Nat.lt_asymm hlong)
  · rfl

theorem Chip.size_pos (chip : Chip) : 0 < chip.columns ∧ 0 < chip.pages := by cases chip <;> decide

theorem screenSize_pos (chip : Chip) (dir : UInt8) : 0 < (screenSize chip dir).1 ∧ 0 < (screenSize chip dir).2 := by
  rw [screenSize]
  split_ifs
  · exact chip.size_pos.symm
  · exact chip.size_pos

theorem windowEdges_last {chip : Chip} (hssd : chip ≠ .ssd1963) (dir : UInt8) (w h : ℕ) :
    windowEdges chip dir w h .ec = w - 1 ∧ windowEdges chip dir w h .ep = h - 1 := by
  rw [windowEdges, if_neg fun hm => hssd hm.2]
  exact ⟨rfl, rfl⟩

theorem laid_dir (dev : LcdDev) (dir : UInt8) : (dev.laid dir).dir = dir := by
  simp only [LcdDev.laid, LcdDev.known]
  split_ifs <;> rfl

/-- **`LCD_Display_Dir`** sets up any of the controllers. -/
theorem displayDir_ready {dir : UInt8} (hid : dev.id = c.chip.id) (hdir : dir = 0 ∨ dir = 1) :
    (lcdDisplayDir dev dir).1 = dev.laid dir ∧ (c.exec (lcdDisplayDir dev dir).2).chip = c.chip ∧
      Ready (dev.laid dir) (c.exec (lcdDisplayDir dev dir).2) := by
  have hk := known_laid hid hdir
  have hsize := screenSize_pos c.chip (dev.laid dir).dir
  rw [← hk.width, ← hk.height] at hsize
  obtain ⟨hdev, i, n, hexec⟩ := exec_scanDir hk.toSpeaks hsize.1 hsize.2 0
  rw [oriented_default hk] at hdev hexec
  rw [lcdDisplayDir, hexec]
  refine ⟨hdev, rfl, hk, ?_, fun hssd => ?_, fun hssd => ?_⟩
  · rw [laid_dir]
    exact scanRegval_zero hdir
  · show windowEdges c.chip _ _ _ .ec + 1 = _
    rw [(windowEdges_last hssd _ _ _).1]
    omega
  · show windowEdges c.chip _ _ _ .ep + 1 = _
    rw [(windowEdges_last hssd _ _ _).2]
    omega

/-! ## The cursor -/

/-- The edges after `LCD_SetCursor`: the SSD1963 gets all of them, the others the near ones. -/
def setEdges (dev : LcdDev) (chip : Chip) (edge : Edge → ℕ) (x y : ℕ) : Edge → ℕ :=
  if chip = .ssd1963 then
    if dev.dir = 0 then
      fun | .sc => y | .ec => dev.height.toNat - 1 | .sp => 0 | .ep => dev.width.toNat - 1 - x
    else fun | .sc => x | .ec => dev.width.toNat - 1 | .sp => y | .ep => dev.height.toNat - 1
  else Function.update (Function.update edge .sc x) .sp y

theorem exec_setEdges (h : Speaks dev c.chip) (hx : x.toNat < dev.width.toNat) (hy : y.toNat < dev.height.toNat) :
    ∃ i n, c.exec (lcdSetCursor dev x y) =
      { c with index := i, argc := n, pos := (0, 0), edge := setEdges dev c.chip c.edge x.toNat y.toNat } := by
  have hword (z : UInt16) : ((z.toNat : ℤ) % 65536).toNat = z.toNat := by have := z.toNat_lt; omega
  have hlast (z : UInt16) (hz : 0 < z.toNat) : (((z.toNat : ℤ) - 1) % 65536).toNat = z.toNat - 1 := by
    have := z.toNat_lt
    omega
  obtain ⟨chip, index, argc, edge, order, pos, gram⟩ := c
  by_cases hregs : chip = .nt35510
  · cases hregs
    refine ⟨0x2B01, 1, ?_⟩
    rw [setCursor_regs h]
    simp only [wrBytesRegs, List.cons_append, List.nil_append]
    rw [Controller.exec_edge_regs rfl rfl, Controller.exec_edge_regs rfl rfl, hword, hword]
    rfl
  have hcol : ∀ n, chip.slot 0x2A n = .edges .sc .ec n := slot_columns hregs
  have hpage : ∀ n, chip.slot 0x2B n = .edges .sp .ep n := slot_pages hregs
  by_cases hssd : chip = .ssd1963
  · cases hssd
    rcases h.dir with hdir | hdir
    · refine ⟨0x2A, 4, ?_⟩
      rw [setCursor_across h hdir, Controller.exec_twoEdges rfl hpage, Controller.exec_twoEdges rfl hcol,
        hword, hword, toNat_mirror hx, hlast _ (Nat.zero_lt_of_lt hy), setEdges, if_pos rfl, if_pos hdir]
      refine congrArg (Controller.mk _ _ _ · _ _ _) (funext fun e => ?_)
      cases e <;> rfl
    · have hdir0 : dev.dir ≠ 0 := by rw [hdir]; decide
      refine ⟨0x2B, 4, ?_⟩
      rw [setCursor_straight h hdir, Controller.exec_twoEdges rfl hcol, Controller.exec_twoEdges rfl hpage,
        hword, hword, hlast _ (Nat.zero_lt_of_lt hx), hlast _ (Nat.zero_lt_of_lt hy), setEdges, if_pos rfl,
        if_neg hdir0]
      refine congrArg (Controller.mk _ _ _ · _ _ _) (funext fun e => ?_)
      cases e <;> rfl
  · refine ⟨0x2B, 2, ?_⟩
    rw [setCursor_words h hregs hssd, Controller.exec_oneEdge rfl hcol, Controller.exec_oneEdge rfl hpage,
      hword, hword, setEdges, if_neg hssd]
    rfl

/-- The far edges are those of the screen. -/
theorem setEdges_eq (h : Ready dev c) (x y : ℕ) : setEdges dev c.chip c.edge x y = cursorEdges c.chip dev.dir x y := by
  rw [setEdges, cursorEdges, h.width, h.height]
  by_cases hssd : c.chip = .ssd1963
  · rw [if_pos hssd]
    refine if_congr ?_ rfl rfl
    rcases h.dir with hdir | hdir <;> simp [Turned, hssd, hdir]
  · have hright := h.right hssd
    have hbottom := h.bottom hssd
    rw [h.width] at hright
    rw [h.height] at hbottom
    rw [if_neg hssd, if_neg fun hturned => hssd hturned.2]
    funext e
    cases e with
    | sc => rfl
    | ec => show c.edge .ec = (screenSize c.chip dev.dir).1 - 1; omega
    | sp => rfl
    | ep => show c.edge .ep = (screenSize c.chip dev.dir).2 - 1; omega

theorem exec_setCursor (h : Ready dev c) (hx : x.toNat < dev.width.toNat) (hy : y.toNat < dev.height.toNat) :
    ∃ i n, c.exec (lcdSetCursor dev x y) =
      { c with index := i, argc := n, pos := (0, 0), edge := cursorEdges c.chip dev.dir x.toNat y.toNat } := by
  rw [← setEdges_eq h]
  exact exec_setEdges h.toSpeaks hx hy

end

/-! ## Pixels from a cursor on -/

section
variable {dev : LcdDev} {c : Controller} {x y : UInt16}

theorem place_injective {chip : Chip} {dir : UInt8} {p q : ℕ × ℕ} (hp : p.1 < (screenSize chip dir).1)
    (hq : q.1 < (screenSize chip dir).1) (hpq : place chip dir p = place chip dir q) : p = q := by
  rw [place, place] at hpq
  split_ifs at hpq with h
  · rw [screenSize, if_pos h] at hp hq
    obtain ⟨hcol, hpage⟩ := Prod.ext_iff.1 hpq
    have hcol : p.2 = q.2 := hcol
    have hpage : chip.pages - 1 - p.1 = chip.pages - 1 - q.1 := hpage
    have hp : p.1 < chip.pages := hp
    have hq : q.1 < chip.pages := hq
    exact Prod.ext (by omega) hcol
  · exact hpq

/-- The controller after the cursor was set. -/
def Controller.aim (c : Controller) (dir : UInt8) (x y : ℕ) : Controller :=
  { c with edge := cursorEdges c.chip dir x y }

@[simp] theorem Controller.edge_aim (c : Controller) (dir : UInt8) (x y : ℕ) :
    (c.aim dir x y).edge = cursorEdges c.chip dir x y := rfl

theorem Ready.aim (h : Ready dev c) (x y : ℕ) : Ready dev (c.aim dev.dir x y) := by
  have hedges (hc : c.chip ≠ .ssd1963) := cursorEdges_along c.chip dev.dir x y fun hturned => hc hturned.2
  refine ⟨h.toKnown, h.order, fun hc => ?_, fun hc => ?_⟩
  · have hright := h.right hc
    rw [h.width] at hright ⊢
    rw [Controller.edge_aim, (hedges hc).2.1]
    omega
  · have hbottom := h.bottom hc
    rw [h.height] at hbottom ⊢
    rw [Controller.edge_aim, (hedges hc).2.2.2]
    omega

theorem Ready.order_of_turned (h : Ready dev c) (hturned : Turned c.chip dev.dir) :
    c.mv = true ∧ c.mx = false ∧ c.my = true := by
  simpa [hturned] using h.order

theorem Ready.order_of_straight (h : Ready dev c) (hturned : ¬ Turned c.chip dev.dir) :
    c.mv = false ∧ c.mx = false ∧ c.my = false := by
  simpa [hturned] using h.order

theorem span_aim (h : Ready dev c) {x y : ℕ} (hx : x < dev.width.toNat) (hy : y < dev.height.toNat) :
    (c.aim dev.dir x y).span = (dev.width.toNat - x, dev.height.toNat - y) := by
  have h' := h.aim x y
  rw [h.width] at hx ⊢
  rw [h.height] at hy ⊢
  by_cases hacross : Turned c.chip dev.dir ∧ c.chip = .ssd1963
  · obtain ⟨hsc, hec, hsp, hep⟩ := cursorEdges_across c.chip dev.dir x y hacross
    rw [Controller.span, if_pos ⟨hacross.2, (h'.order_of_turned hacross.1).1⟩, Controller.edge_aim, hsc, hec, hsp, hep,
      Prod.swap_prod_mk, Prod.mk.injEq]
    omega
  · obtain ⟨hsc, hec, hsp, hep⟩ := cursorEdges_along c.chip dev.dir x y hacross
    have hmv : ¬ ((c.aim dev.dir x y).chip = .ssd1963 ∧ (c.aim dev.dir x y).mv) := by
      rintro ⟨hssd, hmv⟩
      have hstraight : ¬ Turned c.chip dev.dir := fun hturned => hacross ⟨hturned, hssd⟩
      rw [(h'.order_of_straight hstraight).1] at hmv
      exact Bool.false_ne_true hmv
    rw [Controller.span, if_neg hmv, Controller.edge_aim, hsc, hec, hsp, hep, Prod.mk.injEq]
    omega

theorem cell_aim (h : Ready dev c) (x y i j : ℕ) :
    (c.aim dev.dir x y).cell (i, j) = place c.chip dev.dir (x + i, y + j) := by
  have h' := h.aim x y
  have hchip : (c.aim dev.dir x y).chip = c.chip := rfl
  by_cases hturned : Turned c.chip dev.dir <;> by_cases hssd : c.chip = .ssd1963
  · obtain ⟨hmv, hmx, hmy⟩ := h'.order_of_turned hturned
    obtain ⟨hsc, -, -, hep⟩ := cursorEdges_across c.chip dev.dir x y ⟨hturned, hssd⟩
    rw [screenSize, if_pos hturned] at hep
    rw [Controller.cell_of_ssd1963 (hchip.trans hssd), place, if_pos hturned]
    simp only [hmv, hmx, hmy, Controller.edge_aim, hsc, hep]
    exact Prod.ext rfl (by simp; omega)
  · obtain ⟨hmv, hmx, hmy⟩ := h'.order_of_turned hturned
    obtain ⟨hsc, -, hsp, -⟩ := cursorEdges_along c.chip dev.dir x y fun hm => hssd hm.2
    rw [Controller.cell_of_ne (c := c.aim dev.dir x y) hssd, place, if_pos hturned]
    simp only [hmv, hmx, hmy, Controller.edge_aim, hsc, hsp]
    rfl
  · obtain ⟨hmv, hmx, hmy⟩ := h'.order_of_straight hturned
    obtain ⟨hsc, -, hsp, -⟩ := cursorEdges_along c.chip dev.dir x y fun hm => hturned hm.1
    rw [Controller.cell_of_ssd1963 (hchip.trans hssd), place, if_neg hturned]
    simp only [hmv, hmx, hmy, Controller.edge_aim, hsc, hsp]
    rfl
  · obtain ⟨hmv, hmx, hmy⟩ := h'.order_of_straight hturned
    obtain ⟨hsc, -, hsp, -⟩ := cursorEdges_along c.chip dev.dir x y fun hm => hturned hm.1
    rw [Controller.cell_of_ne (c := c.aim dev.dir x y) hssd, place, if_neg hturned]
    simp only [hmv, hmx, hmy, Controller.edge_aim, hsc, hsp]
    rfl

/-- What pixels do that are written from (x, y) on, in a window whose lines have `w` points. -/
def burst (x y w : ℕ) (l : List UInt16) : Brush (ℕ × ℕ) UInt16 := fun p a =>
  if x ≤ p.1 ∧ y ≤ p.2 then (l[(p.2 - y) * w + (p.1 - x)]?).getD a else a

theorem exec_burst (h : Ready dev c) (hx : x.toNat < dev.width.toNat) (hy : y.toNat < dev.height.toNat)
    (l : List UInt16) :
    ∃ i n q, c.exec (lcdSetCursor dev x y ++ lcdWriteRAMPrepare dev ++ l.map .ram) =
      let a := c.aim dev.dir x.toNat y.toNat
      { a with
        index := i, argc := n, pos := q
        gram := store (dev.width.toNat - x.toNat) (dev.height.toNat - y.toNat) a.cell l (0, 0) c.gram } := by
  obtain ⟨i, n, hcursor⟩ := exec_setCursor h hx hy
  have hpixel (n : ℕ) : c.chip.slot dev.wramcmd n = .pixel := by
    have hcmd : dev.wramcmd = (lcdCommands c.chip dev.dir).1 := congrArg (·.1) h.commands
    rw [hcmd]
    rcases h.dir with hdir | hdir <;> rw [hdir] <;> cases c.chip <;> rfl
  rw [Controller.exec_append, Controller.exec_append, hcursor]
  have hspan := span_aim h hx hy
  obtain ⟨n', q, hstore⟩ := Controller.exec_pixels (l := l)
    (c := { c.aim dev.dir x.toNat y.toNat with index := dev.wramcmd, argc := 0, pos := (0, 0) }) hpixel
  refine ⟨dev.wramcmd, n', q, hstore.trans ?_⟩
  show ({ c.aim dev.dir x.toNat y.toNat with
    index := dev.wramcmd, argc := n', pos := q
    gram := store (c.aim dev.dir x.toNat y.toNat).span.1 (c.aim dev.dir x.toNat y.toNat).span.2 _ l _ _ } :
    Controller) = _
  rw [hspan]
  rfl

/-- **Pixels from a cursor on** fill the lines of the window. -/
theorem draws_burst (h : Ready dev c) (hx : x.toNat < dev.width.toNat) (hy : y.toNat < dev.height.toNat)
    {l : List UInt16} (hl : l.length ≤ (dev.width.toNat - x.toNat) * (dev.height.toNat - y.toNat)) :
    Draws dev c (lcdSetCursor dev x y ++ lcdWriteRAMPrepare dev ++ l.map .ram)
      (burst x.toNat y.toNat (dev.width.toNat - x.toNat) l) := by
  obtain ⟨i, n, q, hexec⟩ := exec_burst h hx hy l
  constructor <;> rw [hexec]
  · rfl
  · exact ⟨h.toKnown, h.order, (h.aim _ _).right, (h.aim _ _).bottom⟩
  intro P hP p hp1 hp2
  have hW : 0 < dev.width.toNat - x.toNat := Nat.sub_pos_of_lt hx
  generalize hw : dev.width.toNat - x.toNat = w at *
  generalize hh : dev.height.toNat - y.toNat = hgt at *
  -- the places of the window on the screen
  have hcell (k : ℕ) : (c.aim dev.dir x.toNat y.toNat).cell (nth w k) =
      place c.chip dev.dir (x.toNat + k % w, y.toNat + k / w) := cell_aim h _ _ _ _
  have hcol (k : ℕ) : x.toNat + k % w < (screenSize c.chip dev.dir).1 := by
    rw [← h.width]
    have := Nat.mod_lt k hW
    omega
  have hindex {k : ℕ} (heq : place c.chip dev.dir p = (c.aim dev.dir x.toNat y.toNat).cell (nth w k)) :
      (x.toNat ≤ p.1 ∧ y.toNat ≤ p.2) ∧ (p.2 - y.toNat) * w + (p.1 - x.toNat) = k := by
    rw [place_injective (h.width ▸ hp1) (hcol k) (heq.trans (hcell k)), Nat.add_sub_cancel_left,
      Nat.add_sub_cancel_left,
      Nat.mul_comm]
    exact ⟨⟨Nat.le_add_right _ _, Nat.le_add_right _ _⟩, Nat.div_add_mod k w⟩
  have hstart : ((0, 0) : ℕ × ℕ) = nth w 0 := by simp [nth]
  show store w hgt (c.aim dev.dir x.toNat y.toNat).cell l (0, 0) c.gram (place c.chip dev.dir p) =
    if x.toNat ≤ p.1 ∧ y.toNat ≤ p.2 then (l[(p.2 - y.toNat) * w + (p.1 - x.toNat)]?).getD (P p) else P p
  rw [hstart]
  have hmiss (hout : ∀ k < l.length, place c.chip dev.dir p ≠ (c.aim dev.dir x.toNat y.toNat).cell (nth w (0 + k))) :
      store w hgt (c.aim dev.dir x.toNat y.toNat).cell l (nth w 0) c.gram (place c.chip dev.dir p) = P p := by
    rw [store_miss (by omega) hout, hP p hp1 hp2]
  by_cases hin : x.toNat ≤ p.1 ∧ y.toNat ≤ p.2
  · rw [if_pos hin]
    rcases Nat.lt_or_ge ((p.2 - y.toNat) * w + (p.1 - x.toNat)) l.length with hk | hk
    · have hp : place c.chip dev.dir p =
          (c.aim dev.dir x.toNat y.toNat).cell (nth w (0 + ((p.2 - y.toNat) * w + (p.1 - x.toNat)))) := by
        rw [Nat.zero_add, nth_of_lt (by omega), cell_aim h, Nat.add_sub_cancel' hin.1, Nat.add_sub_cancel' hin.2]
      rw [List.getElem?_eq_getElem hk, Option.getD_some, hp]
      refine store_hit (by omega) (fun i _ j _ heq => ?_) hk
      rw [hcell, hcell] at heq
      have := place_injective (hcol i) (hcol j) heq
      rw [Prod.mk.injEq, Nat.add_left_cancel_iff, Nat.add_left_cancel_iff] at this
      exact nth_injective (Prod.ext this.1 this.2)
    · rw [List.getElem?_eq_none hk, Option.getD_none]
      refine hmiss fun k hlt heq => ?_
      rw [Nat.zero_add] at heq
      have := (hindex heq).2
      omega
  · rw [if_neg hin]
    refine hmiss fun k _ heq => hin ?_
    rw [Nat.zero_add] at heq
    exact (hindex heq).1

end

end DataRecorder.Lcd
