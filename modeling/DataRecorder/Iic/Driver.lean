/-
  The two-wire driver (`HARDWARE/IIC/myiic.c`), which moves the pins one by one.

  Delays are left out: the device reacts at the edges, and nothing else happens in
  between.  For each routine, between pins it is called with and against any device:

  * `iicStart_idle`, `iicStart_held`, `iicStop_held`: the conditions they make;
  * `iicSendByte_acked`: a byte that the device hears and acknowledges;
  * `iicReadByte_shown`: a byte that the device shows.
-/
import DataRecorder.Base.TwoWire
import DataRecorder.Base.Wire

namespace DataRecorder.Iic

open Base Base.TwoWire

variable {S : Type*} (D : Device S)

def iicStart (b : Bus S) : Bus S :=
  b |> D.dir true |> D.sda true |> D.scl true |> D.sda false |> D.scl false

def iicStop (b : Bus S) : Bus S :=
  b |> D.dir true |> D.scl false |> D.sda false |> D.scl true |> D.sda true

/-- SDA is polled until it is low, or `ucErrTime` is beyond 250; the result is 1 then. -/
def iicWaitAck (b : Bus S) : UInt8 × Bus S :=
  let b := b |> D.dir false |> D.sda true |> D.scl true
  let ucErrTime := polls (fun _ => D.read b) true 251 0
  if ucErrTime > 250 then (1, iicStop D b) else (0, D.scl false b)

def iicAck (b : Bus S) : Bus S :=
  b |> D.scl false |> D.dir true |> D.sda false |> D.scl true |> D.scl false

def iicNAck (b : Bus S) : Bus S :=
  b |> D.scl false |> D.dir true |> D.sda true |> D.scl true |> D.scl false

/-- The loop of `IIC_Send_Byte`. -/
def sendLoop : ℕ → UInt8 → Bus S → Bus S
  | 0, _, b => b
  | n + 1, txd, b =>
    sendLoop n (txd <<< 1) (b |> D.sda ((txd &&& 0x80) >>> 7 != 0) |> D.scl true |> D.scl false)

def iicSendByte (txd : UInt8) (b : Bus S) : Bus S :=
  sendLoop D 8 txd (b |> D.dir true |> D.scl false)

/-- The loop of `IIC_Read_Byte`. -/
def readLoop : ℕ → UInt8 → Bus S → UInt8 × Bus S
  | 0, receive, b => (receive, b)
  | n + 1, receive, b =>
    let b := b |> D.scl false |> D.scl true
    readLoop n (push receive (D.read b)) b

def iicReadByte (ack : UInt8) (b : Bus S) : UInt8 × Bus S :=
  let (receive, b) := readLoop D 8 0 (D.dir false b)
  (receive, if ack = 0 then iicNAck D b else iicAck D b)

variable {D} {s s' s'' : S} {c d o v : Bool} {vs : List Bool} {m : List Condition}

/-! ## Conditions -/

theorem iicStart_idle (h : D.pull s = false) : iicStart D ⟨⟨true, true, true⟩, s, m⟩ =
    ⟨⟨false, false, true⟩, D.fall (D.start s), m ++ [.start]⟩ := by
  simp [iicStart, Device.sda_start h]

/-- A START between two transfers: the clock goes up before SDA goes down. -/
theorem iicStart_held (h : D.pull s = false) (hrise : D.pull (D.rise true s) = false) :
    iicStart D ⟨⟨false, d, o⟩, s, m⟩ =
      ⟨⟨false, false, true⟩, D.fall (D.start (D.rise true s)), m ++ [.start]⟩ := by
  simp [iicStart, Device.line_out h, Device.sda_start hrise]

theorem iicStop_held (h : D.pull s = false) (hrise : D.pull (D.rise false s) = false) :
    iicStop D ⟨⟨false, d, o⟩, s, m⟩ =
      ⟨⟨true, true, true⟩, D.stop (D.rise false s), m ++ [.stop]⟩ := by
  simp [iicStop, Device.line_out h, Device.sda_stop hrise]

/-! ## Bytes -/

theorem sendLoop_heard {n : ℕ} {txd : UInt8} (h : D.Hears s (bitsFrom n txd) s') :
    ∃ d', sendLoop D n txd ⟨⟨false, d, true⟩, s, m⟩ = ⟨⟨false, d', true⟩, s', m⟩ := by
  induction n generalizing txd s d with
  | zero =>
    cases h
    exact ⟨d, rfl⟩
  | succ n ih =>
    cases h with
    | cons hpull h =>
      rw [sendLoop, Device.send_bit hpull]
      exact ih h

theorem iicWaitAck_acked (h : D.Acks s s') :
    iicWaitAck D ⟨⟨false, d, o⟩, s, m⟩ = (0, ⟨⟨false, true, false⟩, s', m⟩) := by
  have hbus : (⟨⟨false, d, o⟩, s, m⟩ |> D.dir false |> D.sda true |> D.scl true) =
      ⟨⟨true, true, false⟩, D.rise false s, m⟩ := by
    simp [Device.line_in, h.pull]
  have hlow : D.read ⟨⟨true, true, false⟩, D.rise false s, m⟩ ≠ true := by
    simp [Device.read, Device.line_in, h.hold]
  have hpolls : polls (fun _ => D.read ⟨⟨true, true, false⟩, D.rise false s, m⟩) true 251 0 = 0 :=
    polls_of_ne hlow 251
  have hnext : D.fall (D.rise false s) = s' := h.next
  rw [iicWaitAck, hbus]
  simp [hpolls, hnext]

/-- A byte that the device hears and acknowledges. -/
theorem iicSendByte_acked {txd : UInt8} (hears : D.Hears s (bits txd) s') (hacks : D.Acks s' s'') :
    iicWaitAck D (iicSendByte D txd ⟨⟨false, d, o⟩, s, m⟩) = (0, ⟨⟨false, true, false⟩, s'', m⟩) := by
  obtain ⟨d', hsend⟩ := sendLoop_heard (d := d) (m := m) hears
  have hstart : (⟨⟨false, d, o⟩, s, m⟩ |> D.dir true |> D.scl false) = ⟨⟨false, d, true⟩, s, m⟩ := by simp
  rw [iicSendByte, hstart, hsend, iicWaitAck_acked hacks]

theorem readLoop_told {receive : UInt8} (h : D.Tells s vs s') :
    readLoop D vs.length receive ⟨⟨true, d, false⟩, s, m⟩ =
      (vs.foldl push receive, ⟨⟨true, d, false⟩, s', m⟩) := by
  induction h generalizing receive with
  | nil => rfl
  | cons hshow _ ih =>
    obtain ⟨hrise, hread⟩ := Device.show_bit (d := d) (m := m) hshow
    rw [List.length_cons, readLoop, Device.scl_fall, hrise, hread]
    exact ih

/-- A byte that the device shows, and that the master does not acknowledge. -/
theorem iicReadByte_shown {s₁ s₂ : S} (hshow : D.Shows s v s₁) (htells : D.Tells s₁ vs s₂)
    (hlength : vs.length = 7) (hrelease : D.pull (D.fall s₂) = false) :
    iicReadByte D 0 ⟨⟨false, d, false⟩, s, m⟩ =
      (byte (v :: vs), ⟨⟨false, true, true⟩, D.clock true (D.fall s₂), m⟩) := by
  obtain ⟨hrise, hread⟩ := Device.show_bit (d := d) (m := m) hshow
  have hloop : readLoop D 8 0 ⟨⟨false, d, false⟩, s, m⟩ =
      (byte (v :: vs), ⟨⟨true, d, false⟩, s₂, m⟩) := by
    rw [readLoop, Device.scl_self, hrise, hread, ← hlength, readLoop_told htells]
    rfl
  rw [iicReadByte, Device.dir_self, hloop]
  simp [iicNAck, Device.line_out hrelease, Device.clock]

end DataRecorder.Iic
