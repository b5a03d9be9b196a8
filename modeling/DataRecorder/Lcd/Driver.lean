/-
  The display driver: cursor, scan direction, points, areas and lines.

  Each function is the list of the writes it makes on the bus.  What it reads and
  changes of the global `lcddev` is its argument and its result.
-/
import DataRecorder.Base.Loop
import DataRecorder.Lcd.Controller

namespace DataRecorder.Lcd

open Base

/-- `_lcd_dev`. -/
structure LcdDev where
  width : UInt16
  height : UInt16
  id : UInt16
  dir : UInt8
  wramcmd : UInt16
  setxcmd : UInt16
  setycmd : UInt16
  deriving DecidableEq, Repr

section
variable (dev : LcdDev)

/-- A number as two data words, its high byte and its low byte. -/
def wrBytes (x : ℤ) : List Bus := [.ram (UInt16.ofInt (x / 256)), .ram (UInt16.ofInt (x % 256))]

/-- The same as the data of two commands, `cmd` and the next. -/
def wrBytesRegs (cmd : UInt16) (x : ℤ) : List Bus :=
  [.reg cmd, .ram (UInt16.ofInt (x / 256)), .reg (cmd + 1), .ram (UInt16.ofInt (x % 256))]

def lcdWriteReg (reg value : UInt16) : List Bus := [.reg reg, .ram value]

def lcdSetCursor (xpos ypos : UInt16) : List Bus :=
  if dev.id = 0x9341 ∨ dev.id = 0x5310 then
    [.reg dev.setxcmd] ++ wrBytes xpos.toNat ++ [.reg dev.setycmd] ++ wrBytes ypos.toNat
  else if dev.id = 0x1963 then
    (if dev.dir = 0 then
      [.reg dev.setxcmd, .ram 0, .ram 0] ++ wrBytes (dev.width - 1 - xpos).toNat
    else
      [.reg dev.setxcmd] ++ wrBytes xpos.toNat ++ wrBytes (dev.width.toNat - 1)) ++
    [.reg dev.setycmd] ++ wrBytes ypos.toNat ++ wrBytes (dev.height.toNat - 1)
  else if dev.id = 0x5510 then wrBytesRegs dev.setxcmd xpos.toNat ++ wrBytesRegs dev.setycmd ypos.toNat
  else []

def lcdWriteRAMPrepare : List Bus := [.reg dev.wramcmd]

/-! ## Direction -/

/-- The directions of a display that lies the other way. -/
def turned (dir : UInt8) : UInt8 :=
  match dir with
  | 0 => 6 | 1 => 7 | 2 => 4 | 3 => 5 | 4 => 1 | 5 => 0 | 6 => 3 | 7 => 2
  | dir => dir

/-- The bits of a direction: from `L2R_U2D` to `D2U_R2L`. -/
def scanBits (dir : UInt8) : UInt16 :=
  match dir with
  | 0 => 0x00 | 1 => 0x80 | 2 => 0x40 | 3 => 0xC0 | 4 => 0x20 | 5 => 0x60 | 6 => 0xA0 | 7 => 0xE0
  | _ => 0

/-- `regval` in `LCD_Scan_Dir`, where `lcddev.dir` is `lie`. -/
def scanRegval (id : UInt16) (lie dir : UInt8) : UInt16 :=
  let dir := if lie = 1 ∧ id ≠ 0x1963 ∨ lie = 0 ∧ id = 0x1963 then turned dir else dir
  -- only the ILI9341 takes its colours as BGR
  if id ≠ 0x5310 ∧ id ≠ 0x5510 ∧ id ≠ 0x1963 then scanBits dir ||| 0x08 else scanBits dir

/-- `width` and `height` exchanged. -/
def LcdDev.swap : LcdDev := { dev with width := dev.height, height := dev.width }

/-- `width` and `height` as a direction wants them; not for the SSD1963. -/
def LcdDev.oriented (regval : UInt16) : LcdDev :=
  if dev.id = 0x1963 then dev
  else if regval &&& 0x20 ≠ 0 then (if dev.width < dev.height then dev.swap else dev)
  else if dev.width > dev.height then dev.swap else dev

/-- The window that `LCD_Scan_Dir` sets. -/
def fullWindow : List Bus :=
  if dev.id = 0x5510 then
    [.reg dev.setxcmd, .ram 0, .reg (dev.setxcmd + 1), .ram 0] ++ wrBytesRegs (dev.setxcmd + 2) (dev.width.toNat - 1) ++
    [.reg dev.setycmd, .ram 0, .reg (dev.setycmd + 1), .ram 0] ++ wrBytesRegs (dev.setycmd + 2) (dev.height.toNat - 1)
  else
    [.reg dev.setxcmd, .ram 0, .ram 0] ++ wrBytes (dev.width.toNat - 1) ++
    [.reg dev.setycmd, .ram 0, .ram 0] ++ wrBytes (dev.height.toNat - 1)

def lcdScanDir (dir : UInt8) : LcdDev × List Bus :=
  if dev.id = 0x9341 ∨ dev.id = 0x5310 ∨ dev.id = 0x5510 ∨ dev.id = 0x1963 then
    let regval := scanRegval dev.id dev.dir dir
    let dirreg := if dev.id = 0x5510 then 0x3600 else 0x36
    (dev.oriented regval, lcdWriteReg dirreg regval ++ fullWindow (dev.oriented regval))
  else (dev, [])

/-- What `LCD_Display_Dir` knows of a controller. -/
def LcdDev.known (wramcmd setxcmd setycmd width height : UInt16) : LcdDev :=
  { dev with width := width, height := height, wramcmd := wramcmd, setxcmd := setxcmd, setycmd := setycmd }

/-- `lcddev` before `LCD_Display_Dir` calls `LCD_Scan_Dir`. -/
def LcdDev.laid (dir : UInt8) : LcdDev :=
  let dev := { dev with dir := dir }
  if dir = 0 then
    if dev.id = 0x9341 then dev.known 0x2C 0x2A 0x2B 240 320
    else if dev.id = 0x5310 then dev.known 0x2C 0x2A 0x2B 320 480
    else if dev.id = 0x5510 then dev.known 0x2C00 0x2A00 0x2B00 480 800
    else if dev.id = 0x1963 then dev.known 0x2C 0x2B 0x2A 480 800
    else { dev with width := 240, height := 320 }
  else
    if dev.id = 0x9341 then dev.known 0x2C 0x2A 0x2B 320 240
    else if dev.id = 0x5310 then dev.known 0x2C 0x2A 0x2B 480 320
    else if dev.id = 0x5510 then dev.known 0x2C00 0x2A00 0x2B00 800 480
    else if dev.id = 0x1963 then dev.known 0x2C 0x2A 0x2B 800 480
    else { dev with width := 320, height := 240 }

/-- The default direction is `L2R_U2D`. -/
def lcdDisplayDir (dir : UInt8) : LcdDev × List Bus := lcdScanDir (dev.laid dir) 0

/-! ## Points -/

def lcdDrawPoint (pointColor : UInt32) (x y : UInt16) : List Bus :=
  lcdSetCursor dev x y ++ lcdWriteRAMPrepare dev ++ [.ram pointColor.toUInt16]

def lcdFastDrawPoint (x y : UInt16) (color : UInt32) : List Bus :=
  (if dev.id = 0x9341 ∨ dev.id = 0x5310 then
    [.reg dev.setxcmd] ++ wrBytes x.toNat ++ [.reg dev.setycmd] ++ wrBytes y.toNat
  else if dev.id = 0x5510 then wrBytesRegs dev.setxcmd x.toNat ++ wrBytesRegs dev.setycmd y.toNat
  else if dev.id = 0x1963 then
    let x := if dev.dir = 0 then dev.width - 1 - x else x
    [.reg dev.setxcmd] ++ wrBytes x.toNat ++ wrBytes x.toNat ++ [.reg dev.setycmd] ++ wrBytes y.toNat ++ wrBytes y.toNat
  else []) ++ [.reg dev.wramcmd, .ram color.toUInt16]

/-! ## Areas and lines -/

def lcdClear (color : UInt32) : List Bus :=
  let totalpoint := dev.width.toUInt32 * dev.height.toUInt32
  lcdSetCursor dev 0 0 ++ lcdWriteRAMPrepare dev ++ (List.replicate totalpoint.toNat color.toUInt16).map .ram

/-- One row of `LCD_Fill`: its number and what was written before. -/
def fillStep (sx ey xlen : UInt16) (color : UInt32) (s : UInt16 × List Bus) : Pass (UInt16 × List Bus) (List Bus) :=
  if s.1 ≤ ey then
    .next (s.1 + 1, s.2 ++ (lcdSetCursor dev sx s.1 ++ lcdWriteRAMPrepare dev ++
      (List.replicate xlen.toNat color.toUInt16).map .ram))
  else .done s.2

def lcdFill (fuel : ℕ) (sx sy ex ey : UInt16) (color : UInt32) : Option (List Bus) :=
  loop (fillStep dev sx ey (ex - sx + 1) color) fuel (sy, [])

/-- One row of `LCD_Color_Fill`. -/
def colorFillStep (sx sy width height : UInt16) (color : ℕ → UInt16) (s : UInt16 × List Bus) :
    Pass (UInt16 × List Bus) (List Bus) :=
  if s.1 < height then
    .next (s.1 + 1, s.2 ++ (lcdSetCursor dev sx (sy + s.1) ++ lcdWriteRAMPrepare dev ++
      ((List.range width.toNat).map fun j => color (s.1.toNat * width.toNat + j)).map .ram))
  else .done s.2

def lcdColorFill (fuel : ℕ) (sx sy ex ey : UInt16) (color : ℕ → UInt16) : Option (List Bus) :=
  loop (colorFillStep dev sx sy (ex - sx + 1) (ey - sy + 1) color) fuel (0, [])

/-- `disp_flush`, of the area from (x1, y1) to (x2, y2) with the pixels `colorP`. -/
def dispFlush (fuel : ℕ) (x1 y1 x2 y2 : ℤ) (colorP : ℕ → UInt16) : Option (List Bus) :=
  lcdColorFill dev fuel (UInt16.ofInt x1) (UInt16.ofInt y1) (UInt16.ofInt x2) (UInt16.ofInt y2) colorP

def lcdHLine (pixel : UInt16) (x1 x2 y : ℤ) : List Bus :=
  lcdSetCursor dev (UInt16.ofInt x1) (UInt16.ofInt y) ++ lcdWriteRAMPrepare dev ++
    (List.replicate (x2 - x1 + 1).toNat pixel).map .ram

def lcdBlitLine (pixel : ℕ → UInt16) (x y : ℤ) (size : ℕ) : List Bus :=
  lcdSetCursor dev (UInt16.ofInt x) (UInt16.ofInt y) ++ lcdWriteRAMPrepare dev ++
    ((List.range size).map pixel).map .ram

/-- `LCD_ReadPoint`, on the controller `c`: the colour and the controller after.  `spare` is what stands in
the bits of the three reads that carry no colour. -/
def lcdReadPoint (spare : ℕ → UInt16) (x y : ℤ) (c : Controller) : UInt16 × Controller :=
  if x ≥ dev.width.toNat ∨ y ≥ dev.height.toNat then (0, c)
  else
    let c := c.exec (lcdSetCursor dev (UInt16.ofInt x) (UInt16.ofInt y))
    let c := if dev.id = 0x9341 ∨ dev.id = 0x5310 ∨ dev.id = 0x1963 then c.exec [.reg 0x2E]
      else if dev.id = 0x5510 then c.exec [.reg 0x2E00] else c
    let (r, c) := c.read (spare 0)
    if dev.id = 0x1963 then (r, c)
    else
      let (r, c) := c.read (spare 1)
      let (b, c) := c.read (spare 2)
      let g := (r &&& 0xFF) <<< (8 : UInt16)
      ((r >>> (11 : UInt16)) <<< (11 : UInt16) ||| (g >>> (10 : UInt16)) <<< (5 : UInt16) ||| b >>> (11 : UInt16), c)

end

end DataRecorder.Lcd
