/-
  Two-wire buses: a clock, SCL, that the master drives, and a data line, SDA,
  that it shares with a device.

  Both lines are pulled up.  The master drives SDA in output mode only; the
  device holds it low while it pulls.  A device is given by what it does at the
  edges: at a rise and at a fall of SCL, and at the START and the STOP condition,
  which are edges of SDA while SCL is high.

  * `Device.set` changes the pins of the master; `scl_rise`, `scl_fall`,
    `sda_start`, `sda_stop` and the lemmas beside them say what each change does;
  * `Hears`, `Acks` and `Tells` are the sides of the device in a transfer: it
    takes the bits the master sends, it acknowledges, it sends bits itself;
  * `bits`, `byte`: bytes as bits, the highest one first.
-/
import Mathlib.Data.List.Basic
import Mathlib.Tactic.Common

namespace Base.TwoWire

/-! ## Bytes -/

/-- The `n` highest bits of a byte, from the highest one down. -/
def bitsFrom : ℕ → UInt8 → List Bool
  | 0, _ => []
  | n + 1, d => ((d &&& 0x80) >>> 7 != 0) :: bitsFrom n (d <<< 1)

def bits (d : UInt8) : List Bool := bitsFrom 8 d

/-- The next lower bit of a byte. -/
def push (receive : UInt8) (v : Bool) : UInt8 := if v then receive <<< 1 + 1 else receive <<< 1

def byte (vs : List Bool) : UInt8 := vs.foldl push 0

@[simp] theorem bitsFrom_length (n : ℕ) (d : UInt8) : (bitsFrom n d).length = n := by
  induction n generalizing d with
  | zero => rfl
  | succ n ih => rw [bitsFrom, List.length_cons, ih]

theorem bits_eq_cons (d : UInt8) : ∃ v vs, bits d = v :: vs ∧ vs.length = 7 := ⟨_, _, rfl, bitsFrom_length 7 _⟩

@[simp] theorem byte_bits (d : UInt8) : byte (bits d) = d := by
  have hall : ∀ i : Fin 256, byte (bits (UInt8.ofFin i)) = UInt8.ofFin i := by decide +kernel
  exact hall d.toFin

/-! ## The wires -/

inductive Condition where
  | start | stop
  deriving DecidableEq

/-- The pins of the master: the levels it writes, and whether SDA is in output mode. -/
structure Pins where
  scl : Bool
  sda : Bool
  out : Bool

/-- What the master makes of SDA; in input mode it releases the line. -/
def Pins.drive (p : Pins) : Bool := !p.out || p.sda

structure Device (S : Type*) where
  /-- it holds SDA low -/
  pull : S → Bool
  /-- SDA is high where the master drives it and the device pulls it low -/
  yields : Bool
  rise : Bool → S → S
  fall : S → S
  start : S → S
  stop : S → S

/-- The two sides, and the changes of SDA that the master made while SCL was high. -/
structure Bus (S : Type*) where
  pins : Pins
  device : S
  made : List Condition

/-- The change of SDA by the master, if SCL is high. -/
def condition (p p' : Pins) : List Condition :=
  match p.scl && p'.scl, p.drive, p'.drive with
  | true, true, false => [.start]
  | true, false, true => [.stop]
  | _, _, _ => []

namespace Device
variable {S : Type*} (D : Device S)

/-- The level of SDA. -/
def line (p : Pins) (s : S) : Bool := p.drive && (!D.pull s || (p.out && D.yields))

/-- The device at a change of the pins. -/
def react (p p' : Pins) (s : S) : S :=
  match p.scl, p'.scl with
  | false, true => D.rise (D.line p' s) s
  | true, false => D.fall s
  | true, true =>
    match D.line p s, D.line p' s with
    | true, false => D.start s
    | false, true => D.stop s
    | _, _ => s
  | false, false => s

def set (p : Pins) (b : Bus S) : Bus S :=
  ⟨p, D.react b.pins p b.device, b.made ++ condition b.pins p⟩

def scl (v : Bool) (b : Bus S) : Bus S := D.set { b.pins with scl := v } b

def sda (v : Bool) (b : Bus S) : Bus S := D.set { b.pins with sda := v } b

/-- The direction of SDA; `true` is output. -/
def dir (v : Bool) (b : Bus S) : Bus S := D.set { b.pins with out := v } b

def read (b : Bus S) : Bool := D.line b.pins b.device

variable {D} {s s' : S} {c d o v : Bool} {m : List Condition}

/-! ## Changes of the pins -/

theorem line_in : D.line ⟨c, d, false⟩ s = !D.pull s := by simp [line, Pins.drive]

theorem line_out (h : D.pull s = false) : D.line ⟨c, d, true⟩ s = d := by simp [line, Pins.drive, h]

/-- Writing a pin again changes nothing. -/
theorem set_self (b : Bus S) : D.set b.pins b = b := by
  have hreact : D.react b.pins b.pins b.device = b.device := by
    unfold react
    cases b.pins.scl
    · rfl
    · cases D.line b.pins b.device <;> rfl
  have hcondition : condition b.pins b.pins = [] := by
    unfold condition
    cases b.pins.scl && b.pins.scl
    · rfl
    · cases b.pins.drive <;> rfl
  rw [set, hreact, hcondition, List.append_nil]

@[simp] theorem scl_self : D.scl c ⟨⟨c, d, o⟩, s, m⟩ = ⟨⟨c, d, o⟩, s, m⟩ :=
  set_self (⟨⟨c, d, o⟩, s, m⟩ : Bus S)

@[simp] theorem sda_self : D.sda d ⟨⟨c, d, o⟩, s, m⟩ = ⟨⟨c, d, o⟩, s, m⟩ :=
  set_self (⟨⟨c, d, o⟩, s, m⟩ : Bus S)

@[simp] theorem dir_self : D.dir o ⟨⟨c, d, o⟩, s, m⟩ = ⟨⟨c, d, o⟩, s, m⟩ :=
  set_self (⟨⟨c, d, o⟩, s, m⟩ : Bus S)

/-- While SCL is low nobody looks at SDA. -/
@[simp] theorem sda_low : D.sda v ⟨⟨false, d, o⟩, s, m⟩ = ⟨⟨false, v, o⟩, s, m⟩ := by
  simp [sda, set, react, condition]

@[simp] theorem dir_low : D.dir v ⟨⟨false, d, o⟩, s, m⟩ = ⟨⟨false, d, v⟩, s, m⟩ := by
  simp [dir, set, react, condition]

@[simp] theorem scl_rise : D.scl true ⟨⟨false, d, o⟩, s, m⟩ =
    ⟨⟨true, d, o⟩, D.rise (D.line ⟨true, d, o⟩ s) s, m⟩ := by
  simp [scl, set, react, condition]

@[simp] theorem scl_fall : D.scl false ⟨⟨true, d, o⟩, s, m⟩ = ⟨⟨false, d, o⟩, D.fall s, m⟩ := by
  simp [scl, set, react, condition]

theorem sda_start (h : D.pull s = false) : D.sda false ⟨⟨true, true, true⟩, s, m⟩ =
    ⟨⟨true, false, true⟩, D.start s, m ++ [.start]⟩ := by
  simp [sda, set, react, condition, line_out h, Pins.drive]

theorem sda_stop (h : D.pull s = false) : D.sda true ⟨⟨true, false, true⟩, s, m⟩ =
    ⟨⟨true, true, true⟩, D.stop s, m ++ [.stop]⟩ := by
  simp [sda, set, react, condition, line_out h, Pins.drive]

/-! ## Transfers -/

variable (D)

/-- The device over one period of the clock in which SDA is `v`. -/
def clock (v : Bool) (s : S) : S := D.fall (D.rise v s)

/-- The device takes the bits, one per period of the clock, and leaves SDA alone. -/
inductive Hears : S → List Bool → S → Prop
  | nil (s : S) : Hears s [] s
  | cons {s s' : S} {v : Bool} {vs : List Bool} : D.pull s = false → Hears (D.clock v s) vs s' →
      Hears s (v :: vs) s'

/-- The device pulls SDA low for one period of the clock. -/
structure Acks (s s' : S) : Prop where
  pull : D.pull s = true
  hold : D.pull (D.rise false s) = true
  next : D.clock false s = s'

/-- The device shows the bit `v` while SCL is low, and still after the rise. -/
structure Shows (s : S) (v : Bool) (s' : S) : Prop where
  pull : D.pull s = !v
  next : D.rise v s = s'
  hold : D.pull s' = !v

/-- The device shows the bits one after the other, each from a fall of the clock on. -/
inductive Tells : S → List Bool → S → Prop
  | nil (s : S) : Tells s [] s
  | cons {s s' s'' : S} {v : Bool} {vs : List Bool} : D.Shows (D.fall s) v s' → Tells s' vs s'' →
      Tells s (v :: vs) s''

variable {D}

/-- A bit that the master sends. -/
theorem send_bit (h : D.pull s = false) :
    (⟨⟨false, d, true⟩, s, m⟩ |> D.sda v |> D.scl true |> D.scl false) =
      ⟨⟨false, v, true⟩, D.clock v s, m⟩ := by
  simp [clock, line_out h]

/-- A bit that the device shows. -/
theorem show_bit (h : D.Shows s v s') : D.scl true ⟨⟨false, d, false⟩, s, m⟩ = ⟨⟨true, d, false⟩, s', m⟩ ∧
    D.read ⟨⟨true, d, false⟩, s', m⟩ = v := by
  refine ⟨?_, ?_⟩
  · simp [line_in, h.pull, h.next]
  · simp [read, line_in, h.hold]

end Device

end Base.TwoWire
