/-
  The EEPROM on the two-wire bus (`HARDWARE/24CXX/24cxx.c`).

  `Chip` is the 256-byte device: it shifts in bits, acknowledges its address and
  every byte after it, stores a byte at the STOP condition and shows the addressed
  byte after a repeated START.

  * `writeOneByte_ready`, `readOneByte_ready`: one call, from and to an idle bus;
  * `exec_served`: any run of calls serves the memory a byte at a time, makes the
    intended conditions and no others, and leaves both lines high.
-/
import DataRecorder.Iic.Driver
import Mathlib.Logic.Function.Basic

namespace DataRecorder.Iic

open Base Base.TwoWire

/-! ## The device -/

/-- The bytes the device takes after a START. -/
inductive Field where
  | control | word | data

/-- `acknowledge next` goes on to the next byte, or, with `none`, to the byte it shows. -/
inductive Mode where
  | standby
  | receive (field : Field) (vs : List Bool)
  | acknowledge (next : Option Field)
  | send (vs : List Bool)
  | sent
  | more

structure Chip where
  mode : Mode
  address : UInt8
  buffer : Option UInt8
  memory : UInt8 → UInt8

namespace Chip

def pull (s : Chip) : Bool :=
  match s.mode with
  | .acknowledge _ => true
  | .send (v :: _) => !v
  | _ => false

/-- The device after the eighth bit of a byte. -/
def accept (field : Field) (d : UInt8) (s : Chip) : Chip :=
  match field with
  | .control =>
    if d = 0xA0 then { s with mode := .acknowledge (some .word) }
    else if d = 0xA1 then { s with mode := .acknowledge none }
    else { s with mode := .standby }
  | .word => { s with mode := .acknowledge (some .data), address := d }
  | .data => { s with mode := .acknowledge (some .data), buffer := some d }

def rise (v : Bool) (s : Chip) : Chip :=
  match s.mode with
  | .receive field vs => { s with mode := .receive field (vs ++ [v]) }
  | .sent => { s with mode := if v then .standby else .more }
  | _ => s

def fall (s : Chip) : Chip :=
  match s.mode with
  | .receive field vs => if vs.length = 8 then s.accept field (byte vs) else s
  | .acknowledge (some field) => { s with mode := .receive field [] }
  | .acknowledge none => { s with mode := .send (bits (s.memory s.address)) }
  | .send (_ :: v :: vs) => { s with mode := .send (v :: vs) }
  | .send _ => { s with mode := .sent }
  | .more => { s with address := s.address + 1, mode := .send (bits (s.memory (s.address + 1))) }
  | _ => s

def start (s : Chip) : Chip := { s with mode := .receive .control [], buffer := none }

/-- The byte that was taken last is stored. -/
def stop (s : Chip) : Chip where
  mode := .standby
  address := s.address
  buffer := none
  memory := match s.buffer with
    | some d => Function.update s.memory s.address d
    | none => s.memory

end Chip

def at24c02 (yields : Bool) : Device Chip :=
  ⟨Chip.pull, yields, Chip.rise, Chip.fall, Chip.start, Chip.stop⟩

/-! ## The calls -/

section
variable {S : Type*} (D : Device S)

def at24c16 : ℕ := 2047

/-- `AT24C02`. -/
def eeType : ℕ := 255

def sendAcked (txd : UInt8) (b : Bus S) : Bus S := (iicWaitAck D (iicSendByte D txd b)).2

/-- What both calls send first: the control byte and the address. -/
def sendAddress (addr : UInt16) (b : Bus S) : Bus S :=
  let b :=
    if eeType > at24c16 then b |> sendAcked D 0xA0 |> sendAcked D (addr >>> 8).toUInt8
    else sendAcked D ((0xA0 : UInt16) + (addr / 256) <<< 1).toUInt8 b
  sendAcked D (addr % 256).toUInt8 b

def at24cxxWriteOneByte (writeAddr : UInt16) (dataToWrite : UInt8) (b : Bus S) : Bus S :=
  b |> iicStart D |> sendAddress D writeAddr |> sendAcked D dataToWrite |> iicStop D

def at24cxxReadOneByte (readAddr : UInt16) (b : Bus S) : UInt8 × Bus S :=
  let b := b |> iicStart D |> sendAddress D readAddr |> iicStart D |> sendAcked D 0xA1
  let (temp, b) := iicReadByte D 0 b
  (temp, iicStop D b)

end

/-! ## The device in a transfer -/

variable {yields : Bool} {a : UInt8} {r : Option UInt8} {m : UInt8 → UInt8} {field : Field} {d o : Bool}
  {log : List Condition}

/-- The device takes the bits that are left of a byte. -/
theorem hears_rest {vs acc : List Bool} {v : Bool} (h : acc.length + vs.length = 7) :
    (at24c02 yields).Hears ⟨.receive field acc, a, r, m⟩ (v :: vs)
      (Chip.accept field (byte (acc ++ v :: vs)) ⟨.receive field (acc ++ v :: vs), a, r, m⟩) := by
  induction vs generalizing acc v with
  | nil =>
    have hlast : (acc ++ [v]).length = 8 := by simpa using h
    have hclock : (at24c02 yields).clock v ⟨.receive field acc, a, r, m⟩ =
        Chip.accept field (byte (acc ++ [v])) ⟨.receive field (acc ++ [v]), a, r, m⟩ := if_pos hlast
    exact .cons rfl (hclock ▸ .nil _)
  | cons w vs ih =>
    have hlength : (acc ++ [v]).length + vs.length = 7 := by
      rw [List.length_append, List.length_singleton]
      rw [List.length_cons] at h
      omega
    have hmore : (acc ++ [v]).length ≠ 8 := by omega
    have hclock : (at24c02 yields).clock v ⟨.receive field acc, a, r, m⟩ =
        ⟨.receive field (acc ++ [v]), a, r, m⟩ := if_neg hmore
    have hrest := @ih (acc ++ [v]) w hlength
    rw [List.append_assoc, List.singleton_append] at hrest
    exact .cons rfl (hclock ▸ hrest)

/-- **A byte is taken.** -/
theorem hears_byte (field : Field) (txd : UInt8) :
    (at24c02 yields).Hears ⟨.receive field [], a, r, m⟩ (bits txd)
      (Chip.accept field txd ⟨.receive field (bits txd), a, r, m⟩) := by
  obtain ⟨v, vs, hbits, hlength⟩ := bits_eq_cons txd
  have h := @hears_rest yields a r m field vs [] v (by simpa using hlength)
  rwa [List.nil_append, ← hbits, byte_bits] at h

theorem acks_field : (at24c02 yields).Acks ⟨.acknowledge (some field), a, r, m⟩
    ⟨.receive field [], a, r, m⟩ := ⟨rfl, rfl, rfl⟩

theorem acks_send : (at24c02 yields).Acks ⟨.acknowledge none, a, r, m⟩
    ⟨.send (bits (m a)), a, r, m⟩ := ⟨rfl, rfl, rfl⟩

theorem shows_bit {v : Bool} {vs : List Bool} : (at24c02 yields).Shows ⟨.send (v :: vs), a, r, m⟩ v
    ⟨.send (v :: vs), a, r, m⟩ := ⟨rfl, rfl, rfl⟩

theorem tells_rest {v : Bool} {vs : List Bool} :
    ∃ w, (at24c02 yields).Tells ⟨.send (v :: vs), a, r, m⟩ vs ⟨.send [w], a, r, m⟩ := by
  induction vs generalizing v with
  | nil => exact ⟨v, .nil _⟩
  | cons w vs ih =>
    obtain ⟨last, htells⟩ := @ih w
    exact ⟨last, .cons shows_bit htells⟩

/-! ## One call -/

/-- The idle bus: both lines are high, and the device waits for a START. -/
def ready (a : UInt8) (m : UInt8 → UInt8) (log : List Condition) : Bus Chip :=
  ⟨⟨true, true, true⟩, ⟨.standby, a, none, m⟩, log⟩

/-- A byte after which the device goes on to `next`. -/
theorem sendAcked_field {txd : UInt8} {next : Field} {a' : UInt8} {r' : Option UInt8}
    (h : Chip.accept field txd ⟨.receive field (bits txd), a, r, m⟩ =
      ⟨.acknowledge (some next), a', r', m⟩) :
    sendAcked (at24c02 yields) txd ⟨⟨false, d, o⟩, ⟨.receive field [], a, r, m⟩, log⟩ =
      ⟨⟨false, true, false⟩, ⟨.receive next [], a', r', m⟩, log⟩ := by
  have hears := @hears_byte yields a r m field txd
  rw [h] at hears
  rw [sendAcked, iicSendByte_acked hears acks_field]

theorem sendAcked_read : sendAcked (at24c02 yields) 0xA1
      ⟨⟨false, d, o⟩, ⟨.receive .control [], a, r, m⟩, log⟩ =
    ⟨⟨false, true, false⟩, ⟨.send (bits (m a)), a, r, m⟩, log⟩ := by
  rw [sendAcked, iicSendByte_acked (hears_byte .control 0xA1) acks_send]

/-- The device is given its address and the address of a byte. -/
theorem sendAddress_receive (addr : UInt8) : sendAddress (at24c02 yields) addr.toUInt16
      ⟨⟨false, d, o⟩, ⟨.receive .control [], a, r, m⟩, log⟩ =
    ⟨⟨false, true, false⟩, ⟨.receive .data [], addr, r, m⟩, log⟩ := by
  have htype : ¬ eeType > at24c16 := by decide
  have hlt : addr.toNat < 256 := addr.toNat_lt
  have hdiv : addr.toUInt16 / 256 = 0 := by
    apply UInt16.toNat_inj.1
    rw [UInt16.toNat_div, UInt8.toNat_toUInt16]
    exact Nat.div_eq_of_lt hlt
  have hmod : addr.toUInt16 % 256 = addr.toUInt16 := by
    apply UInt16.toNat_inj.1
    rw [UInt16.toNat_mod, UInt8.toNat_toUInt16]
    exact Nat.mod_eq_of_lt hlt
  have hcontrol : ((0xA0 : UInt16) + (0 : UInt16) <<< 1).toUInt8 = 0xA0 := rfl
  rw [sendAddress, if_neg htype, hdiv, hmod, hcontrol, UInt8.toUInt8_toUInt16, sendAcked_field rfl,
    sendAcked_field rfl]

theorem start_ready (log : List Condition) : iicStart (at24c02 yields) (ready a m log) =
    ⟨⟨false, false, true⟩, ⟨.receive .control [], a, none, m⟩, log ++ [.start]⟩ := iicStart_idle rfl

theorem stop_ready : iicStop (at24c02 yields) ⟨⟨false, d, o⟩, ⟨.receive .data [], a, r, m⟩, log⟩ =
    ready a ((⟨.receive .data [], a, r, m⟩ : Chip).stop).memory (log ++ [.stop]) := iicStop_held rfl rfl

/-- **A write** changes the addressed byte, and leaves an idle bus. -/
theorem writeOneByte_ready (addr dataToWrite : UInt8) :
    at24cxxWriteOneByte (at24c02 yields) addr.toUInt16 dataToWrite (ready a m log) =
      ready addr (Function.update m addr dataToWrite) (log ++ [.start, .stop]) := by
  have hdata : sendAcked (at24c02 yields) dataToWrite
        ⟨⟨false, true, false⟩, ⟨.receive .data [], addr, none, m⟩, log ++ [.start]⟩ =
      ⟨⟨false, true, false⟩, ⟨.receive .data [], addr, some dataToWrite, m⟩, log ++ [.start]⟩ :=
    sendAcked_field rfl
  rw [at24cxxWriteOneByte, start_ready, sendAddress_receive, hdata, stop_ready, List.append_assoc]
  rfl

/-- The device shows the addressed byte, and the transfer ends. -/
theorem readByte_ready (log : List Condition) :
    iicReadByte (at24c02 yields) 0 ⟨⟨false, d, false⟩, ⟨.send (bits (m a)), a, r, m⟩, log⟩ =
      (m a, ⟨⟨false, true, true⟩, ⟨.standby, a, r, m⟩, log⟩) := by
  obtain ⟨v, vs, hbits, hlength⟩ := bits_eq_cons (m a)
  obtain ⟨w, htells⟩ := @tells_rest yields a r m v vs
  have hread := iicReadByte_shown (d := d) (m := log) shows_bit htells hlength rfl
  rw [hbits, hread, ← hbits, byte_bits]
  rfl

/-- **A read** returns the addressed byte and changes nothing. -/
theorem readOneByte_ready (addr : UInt8) :
    at24cxxReadOneByte (at24c02 yields) addr.toUInt16 (ready a m log) =
      (m addr, ready addr m (log ++ [.start, .start, .stop])) := by
  have hrestart : iicStart (at24c02 yields)
        ⟨⟨false, true, false⟩, ⟨.receive .data [], addr, none, m⟩, log ++ [.start]⟩ =
      ⟨⟨false, false, true⟩, ⟨.receive .control [], addr, none, m⟩, log ++ [.start] ++ [.start]⟩ :=
    iicStart_held rfl rfl
  have hstop : iicStop (at24c02 yields)
        ⟨⟨false, true, true⟩, ⟨.standby, addr, none, m⟩, log ++ [.start] ++ [.start]⟩ =
      ready addr m (log ++ [.start] ++ [.start] ++ [.stop]) := iicStop_held rfl rfl
  rw [at24cxxReadOneByte, start_ready, sendAddress_receive, hrestart, sendAcked_read, readByte_ready]
  dsimp only
  rw [hstop, List.append_assoc, List.append_assoc]
  rfl

/-! ## Runs of calls -/

/-- A call with an address from 0 to 255. -/
inductive Call where
  | write (addr data : UInt8)
  | read (addr : UInt8)

namespace Call

/-- The call on the bus, and what it returns. -/
def exec (D : Device Chip) : Call → Bus Chip → Option UInt8 × Bus Chip
  | write addr data, b => (none, at24cxxWriteOneByte D addr.toUInt16 data b)
  | read addr, b =>
    let r := at24cxxReadOneByte D addr.toUInt16 b
    (some r.1, r.2)

/-- The call on a memory. -/
def store : Call → (UInt8 → UInt8) → UInt8 → UInt8
  | write addr data, m => Function.update m addr data
  | read _, m => m

def value : Call → (UInt8 → UInt8) → Option UInt8
  | write _ _, _ => none
  | read addr, m => some (m addr)

/-- The conditions a call is meant to make. -/
def conditions : Call → List Condition
  | write _ _ => [.start, .stop]
  | read _ => [.start, .start, .stop]

/-- The byte the call addresses. -/
def address : Call → UInt8
  | write addr _ => addr
  | read addr => addr

theorem exec_ready (c : Call) : c.exec (at24c02 yields) (ready a m log) =
    (c.value m, ready c.address (c.store m) (log ++ c.conditions)) := by
  cases c with
  | write addr data => rw [exec, writeOneByte_ready]; rfl
  | read addr => rw [exec, readOneByte_ready]; rfl

end Call

/-- The calls one after the other, and what they return. -/
def exec (D : Device Chip) : List Call → Bus Chip → List (Option UInt8) × Bus Chip
  | [], b => ([], b)
  | c :: cs, b =>
    let r := c.exec D b
    let rs := exec D cs r.2
    (r.1 :: rs.1, rs.2)

/-- The memory after the calls. -/
def contents (cs : List Call) (m : UInt8 → UInt8) : UInt8 → UInt8 := cs.foldl (fun m c => c.store m) m

/-- What the calls return, each from the memory it finds. -/
def values : List Call → (UInt8 → UInt8) → List (Option UInt8)
  | [], _ => []
  | c :: cs, m => c.value m :: values cs (c.store m)

/-- Both lines are high. -/
structure Idle (D : Device Chip) (b : Bus Chip) : Prop where
  scl : b.pins.scl = true
  sda : D.read b = true

/-- The calls have served the memory `m`. -/
structure Served (D : Device Chip) (cs : List Call) (m : UInt8 → UInt8) (r : List (Option UInt8) × Bus Chip) :
    Prop where
  returned : r.1 = values cs m
  stored : r.2.device.memory = contents cs m
  made : r.2.made = cs.flatMap Call.conditions
  idle : Idle D r.2

theorem exec_ready (cs : List Call) (a : UInt8) (m : UInt8 → UInt8) (log : List Condition) :
    ∃ a', exec (at24c02 yields) cs (ready a m log) =
      (values cs m, ready a' (contents cs m) (log ++ cs.flatMap Call.conditions)) := by
  induction cs generalizing a m log with
  | nil => exact ⟨a, by simp [exec, values, contents]⟩
  | cons c cs ih =>
    obtain ⟨a', h⟩ := ih c.address (c.store m) (log ++ c.conditions)
    refine ⟨a', ?_⟩
    rw [exec, Call.exec_ready]
    simp only [h, values, contents, List.foldl_cons, List.flatMap_cons, List.append_assoc]

/-- **Every run of calls** serves the memory, whatever it holds at first and whichever side wins where
the master and the device drive SDA against each other. -/
theorem exec_served (yields : Bool) (cs : List Call) (a : UInt8) (m : UInt8 → UInt8) :
    Served (at24c02 yields) cs m (exec (at24c02 yields) cs (ready a m [])) := by
  obtain ⟨a', h⟩ := @exec_ready yields cs a m []
  rw [h]
  exact ⟨rfl, rfl, rfl, rfl, rfl⟩

end DataRecorder.Iic
