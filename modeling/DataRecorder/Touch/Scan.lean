/-
  Reading the resistive touch screen (`HARDWARE/TOUCH/touch.c`).

  A call of `TP_Scan` sees the pen line once and starts up to twenty conversions.
-/
import DataRecorder.Touch.Eeprom

namespace DataRecorder.Touch

open Base

variable {A : Arithmetic}

/-- What a call of `TP_Scan` meets: the pen line, and the sixteen bits that its `n`th conversion
shifts in when it is asked for with the command `cmd`. -/
structure Sample where
  pen : Bool
  dout : UInt8 → ℕ → UInt16

/-- Only the upper twelve bits are valid. -/
def tpReadAD (dout : UInt8 → ℕ → UInt16) (cmd : UInt8) (n : ℕ) : UInt16 := dout cmd n >>> 4

def readTimes : ℕ := 5

def lostVal : ℕ := 1

/-- The comparisons of the sort in `TP_Read_XOY`, in order. -/
def sortPairs : List (ℕ × ℕ) :=
  (List.range (readTimes - 1)).flatMap fun i =>
    (List.range' (i + 1) (readTimes - (i + 1))).map fun j => (i, j)

/-- `if (buf[i] > buf[j])` exchange them. -/
def exchange (buf : ℕ → UInt16) (p : ℕ × ℕ) : ℕ → UInt16 :=
  if buf p.1 > buf p.2 then Function.update (Function.update buf p.1 (buf p.2)) p.2 (buf p.1) else buf

/-- `TP_Read_XOY`, whose conversions are those from the `n`th. -/
def tpReadXOY (dout : UInt8 → ℕ → UInt16) (xy : UInt8) (n : ℕ) : UInt16 :=
  let buf := sortPairs.foldl exchange fun i => tpReadAD dout xy (n + i)
  let sum := (List.range' lostVal (readTimes - 2 * lostVal)).foldl (fun sum i => sum + buf i) 0
  sum / UInt16.ofNat (readTimes - 2 * lostVal)

def tpReadXY (tp : TpDev A) (dout : UInt8 → ℕ → UInt16) (n : ℕ) : UInt16 × UInt16 :=
  (tpReadXOY dout tp.cmdRdx n, tpReadXOY dout tp.cmdRdy (n + readTimes))

def errRange : ℕ := 50

/-- Two readings of an axis are within `ERR_RANGE`. -/
def near (a b : UInt16) : Bool :=
  (b.toNat ≤ a.toNat && a.toNat < b.toNat + errRange) ||
    (a.toNat ≤ b.toNat && b.toNat < a.toNat + errRange)

/-- `TP_Read_XY2`: `none` if the two readings are too far apart. -/
def tpReadXY2 (tp : TpDev A) (dout : UInt8 → ℕ → UInt16) : Option (UInt16 × UInt16) :=
  let p₁ := tpReadXY tp dout 0
  let p₂ := tpReadXY tp dout (2 * readTimes)
  if near p₁.1 p₂.1 && near p₁.2 p₂.2 then
    some (UInt16.ofNat ((p₁.1.toNat + p₂.1.toNat) / 2), UInt16.ofNat ((p₁.2.toNat + p₂.2.toNat) / 2))
  else none

/-- `fac * v + off`, as a `u16`. -/
def toScreen (fac : FloatVal A.single) (off : Int16) (v : UInt16) : UInt16 :=
  ((fac.mul (.ofInt v.toNat)).add (.ofInt off.toInt)).toUInt32.toUInt16

def tpPresDown : UInt8 := 0x80

def tpCathPres : UInt8 := 0x40

/-- The coordinates that `TP_Scan` takes: those of the converter if `raw`, else those of the
screen. -/
def readPoint (raw : Bool) (dout : UInt8 → ℕ → UInt16) (tp : TpDev A) : TpDev A :=
  match tpReadXY2 tp dout with
  | none => tp
  | some (x, y) =>
    if raw then { tp with x0 := x, y0 := y }
    else { tp with x0 := toScreen tp.xfac tp.xoff x, y0 := toScreen tp.yfac tp.yoff y }

/-- `TP_Scan`; `raw` is its argument `tp`. -/
def tpScan (raw : Bool) (s : Sample) (tp : TpDev A) : TpDev A :=
  if s.pen then
    let tp := readPoint raw s.dout tp
    if tp.sta &&& tpPresDown = 0 then
      { tp with sta := tpPresDown ||| tpCathPres, x4 := tp.x0, y4 := tp.y0 }
    else tp
  else if tp.sta &&& tpPresDown ≠ 0 then { tp with sta := tp.sta &&& ~~~tpPresDown }
  else { tp with x4 := 0, y4 := 0, x0 := 0xffff, y0 := 0xffff }

theorem tpScan_toAdjData (raw : Bool) (s : Sample) (tp : TpDev A) :
    (tpScan raw s tp).toAdjData = tp.toAdjData := by
  have hread : (readPoint raw s.dout tp).toAdjData = tp.toAdjData := by
    unfold readPoint
    rcases tpReadXY2 tp s.dout with _ | ⟨x, y⟩
    · rfl
    · cases raw <;> rfl
  by_cases hpen : s.pen
  · simp only [tpScan, if_pos hpen]
    split_ifs
    · exact hread
    · exact hread
  · simp only [tpScan, if_neg hpen]
    split_ifs <;> rfl

end DataRecorder.Touch
