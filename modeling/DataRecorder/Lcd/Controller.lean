/-
  The display controllers that the driver knows: ILI9341, NT35310, NT35510 and
  SSD1963.  They are what `lcd.c` takes them for: they follow the commands that it
  sends, as its comments describe them, and have no others.

  The processor writes to two places, `LCD_REG` (a command) and `LCD_RAM` (its
  data).  Commands set the edges of the address window, byte by byte, and the scan
  order; the command for writing pixels starts at the first place of the window,
  and every pixel moves the counter on.

  * `exec_pixels`: what a run of pixels leaves in the frame memory;
  * `exec_edge`, `exec_edge_regs`: an edge written in two bytes.
-/
import DataRecorder.Base.Canvas
import Mathlib.Data.Int.Notation

namespace DataRecorder.Lcd

open Base

/-- `lcddev.id` names the controller. -/
inductive Chip where
  | ili9341
  | nt35310
  | nt35510
  | ssd1963
  deriving DecidableEq, Repr

namespace Chip

def id : Chip → UInt16
  | ili9341 => 0x9341
  | nt35310 => 0x5310
  | nt35510 => 0x5510
  | ssd1963 => 0x1963

/-- The columns of the frame memory. -/
def columns : Chip → ℕ
  | ili9341 => 240
  | nt35310 => 320
  | nt35510 => 480
  | ssd1963 => 800

/-- The pages (rows) of the frame memory. -/
def pages : Chip → ℕ
  | ili9341 => 320
  | nt35310 => 480
  | nt35510 => 800
  | ssd1963 => 480

end Chip

/-- The edges of the address window: its first and last column, its first and last page. -/
inductive Edge where
  | sc
  | ec
  | sp
  | ep
  deriving DecidableEq, Repr

/-- What a word of data is for. -/
inductive Slot where
  | high (e : Edge)
  | low (e : Edge)
  | order
  | pixel
  | other
  deriving DecidableEq, Repr

/-- The four data words of a command that sets two edges. -/
def Slot.edges (first last : Edge) : ℕ → Slot
  | 0 => high first
  | 1 => low first
  | 2 => high last
  | 3 => low last
  | _ => other

/-- What the next word of data is for, `argc` words after the command. -/
def Chip.slot : Chip → UInt16 → ℕ → Slot
  -- here every word has a command of its own
  | nt35510, index, _ =>
    if index = 0x2A00 then .high .sc else if index = 0x2A01 then .low .sc
    else if index = 0x2A02 then .high .ec else if index = 0x2A03 then .low .ec
    else if index = 0x2B00 then .high .sp else if index = 0x2B01 then .low .sp
    else if index = 0x2B02 then .high .ep else if index = 0x2B03 then .low .ep
    else if index = 0x3600 then .order else if index = 0x2C00 then .pixel else .other
  | _, index, argc =>
    if index = 0x2A then .edges .sc .ec argc else if index = 0x2B then .edges .sp .ep argc
    else if index = 0x36 then .order else if index = 0x2C then .pixel else .other

/-- A write of the processor, to `LCD->LCD_REG` or to `LCD->LCD_RAM`. -/
inductive Bus where
  | reg (v : UInt16)
  | ram (v : UInt16)
  deriving DecidableEq, Repr

/-- The word in which red and green are read back, each at the top of its byte. -/
def redGreen (a spare : UInt16) : UInt16 := a &&& 0xF800 ||| (a >>> (3 : UInt16)) &&& 0x00FC ||| spare &&& 0x0703

/-- The word in which blue is read back. -/
def blue (a spare : UInt16) : UInt16 := a <<< (11 : UInt16) ||| spare &&& 0x07FF

structure Controller where
  chip : Chip
  index : UInt16
  argc : ℕ
  edge : Edge → ℕ
  order : UInt16
  pos : ℕ × ℕ
  gram : ℕ × ℕ → UInt16

namespace Controller
variable (c : Controller)

/-- Rows and columns exchanged. -/
def mv : Bool := c.order.toNat.testBit 5

/-- Columns mirrored. -/
def mx : Bool := c.order.toNat.testBit 6

/-- Pages mirrored. -/
def my : Bool := c.order.toNat.testBit 7

/-- The length of a line of the window as it is written, and the number of lines. -/
def span : ℕ × ℕ :=
  let size := (c.edge .ec + 1 - c.edge .sc, c.edge .ep + 1 - c.edge .sp)
  if c.chip = .ssd1963 ∧ c.mv then size.swap else size

/-- The place in the frame memory, column and page, of a place of the window. -/
def cell (p : ℕ × ℕ) : ℕ × ℕ :=
  match c.chip with
  -- mirrored inside the window
  | .ssd1963 =>
    let q := if c.mv then p.swap else p
    (if c.mx then c.edge .ec - q.1 else c.edge .sc + q.1, if c.my then c.edge .ep - q.2 else c.edge .sp + q.2)
  -- mirrored inside the frame memory
  | chip =>
    let q := if c.mv then (c.edge .sp + p.2, c.edge .sc + p.1) else (c.edge .sc + p.1, c.edge .sp + p.2)
    (if c.mx then chip.columns - 1 - q.1 else q.1, if c.my then chip.pages - 1 - q.2 else q.2)

def setHigh (e : Edge) (v : UInt16) : Edge → ℕ :=
  Function.update c.edge e (v.toNat % 256 * 256 + c.edge e % 256)

def setLow (e : Edge) (v : UInt16) : Edge → ℕ :=
  Function.update c.edge e (c.edge e / 256 * 256 + v.toNat % 256)

def write : Bus → Controller
  | .reg v => { c with index := v, argc := 0, pos := (0, 0) }
  | .ram v =>
    let c' := { c with argc := c.argc + 1 }
    match c.chip.slot c.index c.argc with
    | .high e => { c' with edge := c.setHigh e v }
    | .low e => { c' with edge := c.setLow e v }
    | .order => { c' with order := v }
    | .pixel =>
      { c' with gram := Function.update c.gram (c.cell c.pos) v, pos := advance c.span.1 c.span.2 c.pos }
    | .other => c'

def exec (bs : List Bus) : Controller := bs.foldl write c

/-- A read from `LCD->LCD_RAM` under the command for reading pixels.  `spare` is what stands in the bits that
carry no colour. -/
def read (spare : UInt16) : UInt16 × Controller :=
  let a := c.gram (c.cell c.pos)
  let v := if c.chip = .ssd1963 then a else if c.argc = 1 then redGreen a spare
    else if c.argc = 2 then blue a spare else spare
  (v, { c with argc := c.argc + 1 })

variable {c}

theorem cell_of_ssd1963 (h : c.chip = .ssd1963) (p : ℕ × ℕ) : c.cell p =
    let q := if c.mv then p.swap else p
    (if c.mx then c.edge .ec - q.1 else c.edge .sc + q.1, if c.my then c.edge .ep - q.2 else c.edge .sp + q.2) := by
  rw [cell, h]

theorem cell_of_ne (h : c.chip ≠ .ssd1963) (p : ℕ × ℕ) : c.cell p =
    let q := if c.mv then (c.edge .sp + p.2, c.edge .sc + p.1) else (c.edge .sc + p.1, c.edge .sp + p.2)
    (if c.mx then c.chip.columns - 1 - q.1 else q.1, if c.my then c.chip.pages - 1 - q.2 else q.2) := by
  cases hchip : c.chip with
  | ssd1963 => exact absurd hchip h
  | ili9341 => rw [cell, hchip]
  | nt35310 => rw [cell, hchip]
  | nt35510 => rw [cell, hchip]

/-! ## Runs of writes -/

@[simp] theorem exec_nil : c.exec [] = c := rfl

@[simp] theorem exec_cons (b : Bus) (bs : List Bus) : c.exec (b :: bs) = (c.write b).exec bs := rfl

theorem exec_append (bs bs' : List Bus) : c.exec (bs ++ bs') = (c.exec bs).exec bs' := List.foldl_append

@[simp] theorem write_reg (v : UInt16) : c.write (.reg v) = { c with index := v, argc := 0, pos := (0, 0) } := rfl

theorem write_pixel {v : UInt16} (h : c.chip.slot c.index c.argc = .pixel) : c.write (.ram v) =
    { c with argc := c.argc + 1
             gram := Function.update c.gram (c.cell c.pos) v
             pos := advance c.span.1 c.span.2 c.pos } := by
  simp only [write, h]

/-- **A run of pixels** is stored along the raster of the window. -/
theorem exec_pixels {l : List UInt16} {c : Controller} (h : ∀ n, c.chip.slot c.index n = .pixel) :
    ∃ n p, c.exec (l.map .ram) =
      { c with argc := n, pos := p, gram := store c.span.1 c.span.2 c.cell l c.pos c.gram } := by
  induction l generalizing c with
  | nil => exact ⟨c.argc, c.pos, rfl⟩
  | cons v l ih =>
    rw [List.map_cons, exec_cons, write_pixel (h c.argc)]
    exact ih h

/-- The two bytes of `x` make up an edge. -/
theorem setLow_setHigh {f : Edge → ℕ} {e : Edge} (x : ℤ) :
    Function.update (Function.update f e ((UInt16.ofInt (x / 256)).toNat % 256 * 256 + f e % 256)) e
      ((Function.update f e ((UInt16.ofInt (x / 256)).toNat % 256 * 256 + f e % 256)) e / 256 * 256 +
        (UInt16.ofInt (x % 256)).toNat % 256) = Function.update f e (x % 65536).toNat := by
  have hbyte (y : ℤ) : ((UInt16.ofInt y).toNat % 256 : ℤ) = y % 256 := by
    have hy : ((UInt16.ofInt y).toNat : ℤ) = y % 65536 := by
      rw [UInt16.ofInt, UInt16.toNat_ofNat']
      omega
    rw [hy]
    omega
  have hhigh := hbyte (x / 256)
  have hlow := hbyte (x % 256)
  rw [Function.update_idem, Function.update_self]
  congr 1
  omega

/-- **An edge in two bytes**, as data words of one command. -/
theorem exec_edge {e : Edge} {x : ℤ} {bs : List Bus} (hhigh : c.chip.slot c.index c.argc = .high e)
    (hlow : c.chip.slot c.index (c.argc + 1) = .low e) :
    c.exec (.ram (UInt16.ofInt (x / 256)) :: .ram (UInt16.ofInt (x % 256)) :: bs) =
      { c with argc := c.argc + 2, edge := Function.update c.edge e (x % 65536).toNat }.exec bs := by
  simp only [exec_cons, write, hhigh, hlow, setHigh, setLow, setLow_setHigh]

/-- **An edge in two bytes**, each with its command. -/
theorem exec_edge_regs {e : Edge} {x : ℤ} {r r' : UInt16} {bs : List Bus} (hhigh : c.chip.slot r 0 = .high e)
    (hlow : c.chip.slot r' 0 = .low e) :
    c.exec (.reg r :: .ram (UInt16.ofInt (x / 256)) :: .reg r' :: .ram (UInt16.ofInt (x % 256)) :: bs) =
      { c with index := r', argc := 1, pos := (0, 0)
               edge := Function.update c.edge e (x % 65536).toNat }.exec bs := by
  simp only [exec_cons, write, hhigh, hlow, setHigh, setLow, setLow_setHigh]

end Controller

end DataRecorder.Lcd
