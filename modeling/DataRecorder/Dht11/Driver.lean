/-
  The bit-level driver of the DHT11 sensor (`HARDWARE/Src/dht11.c`).

  The functions read the data line, a `Wire` with the time in microseconds that
  starts after `DHT11_Rst` has released the line.  Each takes the time at which it
  is called and returns its result with the time at which it returns.

  * `Transmission` is what a sensor may send, with the width of every pulse
    within the protocol;
  * `dht11_decodes`: on the line of a transmission `DHT11_Check` reports the
    sensor, and the five `DHT11_Read_Byte` calls return the bytes sent.
-/
import DataRecorder.Base.Wire

namespace DataRecorder

open Base

/-! ## The driver -/

/-- `SENSOR_DataTypeDef`, the message sent through `sensor_mq`. -/
structure SensorData where
  temperature : UInt8
  humidity : UInt8
deriving DecidableEq

/-- `DHT11_Check`: 0 if the sensor answers, 1 if not. -/
def dht11Check (line : Wire) (t : ℕ) : UInt8 × ℕ :=
  let retry := polls line true 100 t
  let t := t + retry
  if retry ≥ 100 then (1, t)
  else
    let retry := polls line false 100 t
    let t := t + retry
    if retry ≥ 100 then (1, t) else (0, t)

def dht11ReadBit (line : Wire) (t : ℕ) : UInt8 × ℕ :=
  let t := t + polls line true 100 t
  let t := t + polls line false 100 t
  let t := t + 40
  (if line t then 1 else 0, t)

/-- The last `n` passes of the loop of `DHT11_Read_Byte`. -/
def readBits (line : Wire) : ℕ → UInt8 → ℕ → UInt8 × ℕ
  | 0, dat, t => (dat, t)
  | n + 1, dat, t =>
    let bit := dht11ReadBit line t
    readBits line n ((dat <<< 1) ||| bit.1) bit.2

def dht11ReadByte (line : Wire) (t : ℕ) : UInt8 × ℕ := readBits line 8 0 t

/-- `n` calls of `DHT11_Read_Byte`, the loop of `DHT11_Read_Data`. -/
def dht11ReadBytes (line : Wire) : ℕ → ℕ → List UInt8
  | 0, _ => []
  | n + 1, t =>
    let byte := dht11ReadByte line t
    byte.1 :: dht11ReadBytes line n byte.2

/-- `DHT11_Read_Data`: the returned value, and what `*temp` and `*humi` hold
    afterwards.  The sum of the four bytes is an `int`. -/
def dht11ReadData (line : Wire) (value : SensorData) : UInt8 × SensorData :=
  let check := dht11Check line 0
  if check.1 = 0 then
    let buf := dht11ReadBytes line 5 check.2
    if (buf.getD 0 0).toNat + (buf.getD 1 0).toNat + (buf.getD 2 0).toNat + (buf.getD 3 0).toNat =
        (buf.getD 4 0).toNat then
      (0, ⟨buf.getD 2 0, buf.getD 0 0⟩)
    else (0, value)
  else (1, value)

/-! ## What the sensor sends -/

/-- The bits of a byte, most significant first. -/
def bitsOf (b : UInt8) : List Bool := [7, 6, 5, 4, 3, 2, 1, 0].map b.toNat.testBit

/-- A bit on the line: a low phase, then a high phase whose width tells a 0 from
    a 1. -/
structure BitPulse where
  bit : Bool
  low : ℕ
  high : ℕ
  low_width : 41 ≤ low ∧ low ≤ 99
  high_width : if bit then 41 ≤ high ∧ high ≤ 130 else 1 ≤ high ∧ high ≤ 39

def BitPulse.nominal (b : Bool) : BitPulse where
  bit := b
  low := 54
  high := if b then 74 else 26
  low_width := by decide
  high_width := by cases b <;> decide

/-- The pulses of the bits `bits` and of the final low phase. -/
def bitWave (bits : List BitPulse) (last : ℕ) : List Pulse :=
  bits.flatMap (fun b => [⟨false, b.low⟩, ⟨true, b.high⟩]) ++ [⟨false, last⟩]

/-- A transmission of the sensor: a frame and the widths of all pulses, each
    within the protocol.  `idle` is the line after the final low phase. -/
structure Transmission where
  bytes : List UInt8
  released : ℕ
  presenceLow : ℕ
  presenceHigh : ℕ
  bits : List BitPulse
  last : ℕ
  idle : Wire
  frame : bytes.length = 5
  released_width : 1 ≤ released ∧ released ≤ 99
  presenceLow_width : 1 ≤ presenceLow ∧ presenceLow ≤ 99
  presenceHigh_width : 1 ≤ presenceHigh ∧ presenceHigh ≤ 99
  encodes : bits.map BitPulse.bit = bytes.flatMap bitsOf
  last_width : 41 ≤ last

def Transmission.line (x : Transmission) : Wire :=
  wave (⟨true, x.released⟩ :: ⟨false, x.presenceLow⟩ :: ⟨true, x.presenceHigh⟩ ::
    bitWave x.bits x.last) x.idle

/-! ## Reading a bit -/

/-- The reader is ready for the pulses `ps`, which begin with a low phase: in the
    high phase before them with at most 99 to go, or at most 39 into them. -/
def Ready (line : Wire) (t : ℕ) (ps : List Pulse) (idle : Wire) : Prop :=
  (∃ high o, o ≤ high ∧ high - o ≤ 99 ∧ At line t (⟨true, high⟩ :: ps) idle o) ∨
    ∃ o ≤ 39, At line t ps idle o

section
variable {line idle : Wire} {t : ℕ}

/-- The first wait of `DHT11_Read_Bit` ends in the low phase of the bit. -/
theorem Ready.wait_high {low : ℕ} {ps : List Pulse} (h : Ready line t (⟨false, low⟩ :: ps) idle)
    (hlow : 41 ≤ low) : ∃ o ≤ 39, At line (t + polls line true 100 t) (⟨false, low⟩ :: ps) idle o := by
  rcases h with ⟨high, o, ho, hle, h⟩ | ⟨o, ho, h⟩
  · obtain ⟨-, hat⟩ := h.wait (n := 100) (v := true) rfl ho (by simp) (by simp only; omega)
      (by simp only; omega)
    exact ⟨0, Nat.zero_le _, hat⟩
  · rw [h.no_wait (by simp only; omega) (by simp)]
    exact ⟨o, ho, h⟩

/-- **Reading a bit** gives the bit sent, and leaves the reader ready for the
    next low phase. -/
theorem readBit_ready {b : BitPulse} {low : ℕ} {ps : List Pulse} (hlow : 41 ≤ low)
    (h : Ready line t (⟨false, b.low⟩ :: ⟨true, b.high⟩ :: ⟨false, low⟩ :: ps) idle) :
    (dht11ReadBit line t).1 = (if b.bit then 1 else 0) ∧
      Ready line (dht11ReadBit line t).2 (⟨false, low⟩ :: ps) idle := by
  obtain ⟨hl₁, hl₂⟩ := b.low_width
  have hw := b.high_width
  obtain ⟨o, ho, h⟩ := h.wait_high hl₁
  obtain ⟨t₁, ht₁⟩ : ∃ t₁, t₁ = t + polls line true 100 t := ⟨_, rfl⟩
  rw [← ht₁] at h
  have hhigh : 0 < b.high := by split at hw <;> omega
  -- the second wait ends where the high phase begins
  obtain ⟨-, h⟩ := h.wait (n := 100) (v := false) rfl (by simp only; omega) (by simp) hhigh
    (by simp only; omega)
  have h40 := h.later 40
  unfold dht11ReadBit
  simp only [← ht₁]
  by_cases hb : b.bit
  · -- 40 us later the high phase of a 1 is still there
    rw [if_pos hb] at hw
    rw [h40.level (by simp only; omega), hb]
    exact ⟨rfl, Or.inl ⟨b.high, 40, by omega, by omega, by simpa using h40⟩⟩
  · -- 40 us later the high phase of a 0 is over, and the next low phase has begun
    rw [if_neg hb] at hw
    have hnext : At line (t₁ + polls line false 100 t₁ + 40) (⟨false, low⟩ :: ps) idle (40 - b.high) := by
      rw [show 0 + 40 = b.high + (40 - b.high) by omega] at h40
      exact h40.pass
    rw [hnext.level (by simp only; omega), if_neg hb]
    exact ⟨rfl, Or.inr ⟨40 - b.high, by omega, hnext⟩⟩

/-! ## Reading bytes -/

theorem bitWave_head (bits : List BitPulse) {last : ℕ} (hlast : 41 ≤ last) :
    ∃ low ps, 41 ≤ low ∧ bitWave bits last = ⟨false, low⟩ :: ps := by
  cases bits with
  | nil => exact ⟨last, [], hlast, rfl⟩
  | cons b bits => exact ⟨b.low, _, b.low_width.1, rfl⟩

/-- The value of bits shifted into `dat`. -/
def shiftIn (dat : UInt8) (bits : List Bool) : UInt8 :=
  bits.foldl (fun dat b => (dat <<< 1) ||| if b then 1 else 0) dat

theorem shiftIn_bitsOf (b : UInt8) : shiftIn 0 (bitsOf b) = b := by
  have h : ∀ n < 256, shiftIn 0 (bitsOf (UInt8.ofNat n)) = UInt8.ofNat n := by decide +kernel
  simpa using h b.toNat b.toNat_lt

theorem readBits_ready {bits more : List BitPulse} {last : ℕ} (hlast : 41 ≤ last) (dat : UInt8)
    (h : Ready line t (bitWave (bits ++ more) last) idle) :
    (readBits line bits.length dat t).1 = shiftIn dat (bits.map BitPulse.bit) ∧
      Ready line (readBits line bits.length dat t).2 (bitWave more last) idle := by
  induction bits generalizing dat t with
  | nil => exact ⟨rfl, h⟩
  | cons b bits ih =>
    obtain ⟨low, ps, hlow, hps⟩ := bitWave_head (bits ++ more) hlast
    have hwave : bitWave (b :: bits ++ more) last =
        ⟨false, b.low⟩ :: ⟨true, b.high⟩ :: bitWave (bits ++ more) last := rfl
    rw [hwave, hps] at h
    obtain ⟨hbit, hready⟩ := readBit_ready hlow h
    rw [← hps] at hready
    rw [List.length_cons, readBits, hbit]
    exact ih _ hready

/-- **Reading bytes** gives the bytes sent. -/
theorem readBytes_ready {bytes : List UInt8} {bits : List BitPulse} {last : ℕ} (hlast : 41 ≤ last)
    (hbits : bits.map BitPulse.bit = bytes.flatMap bitsOf) (h : Ready line t (bitWave bits last) idle) :
    dht11ReadBytes line bytes.length t = bytes := by
  induction bytes generalizing bits t with
  | nil => rfl
  | cons byte bytes ih =>
    rw [List.flatMap_cons] at hbits
    obtain ⟨first, more, rfl, hfirst, hmore⟩ := List.map_eq_append_iff.1 hbits
    have hlen : first.length = 8 := by
      rw [← List.length_map (f := BitPulse.bit), hfirst]; rfl
    obtain ⟨hbyte, hready⟩ := readBits_ready hlast 0 h
    rw [hlen] at hbyte hready
    rw [hfirst, shiftIn_bitsOf] at hbyte
    rw [List.length_cons, dht11ReadBytes]
    exact congrArg₂ _ hbyte (ih hmore hready)

end

/-! ## The whole transmission -/

namespace Transmission

variable (x : Transmission)

theorem check_ready :
    (dht11Check x.line 0).1 = 0 ∧ Ready x.line (dht11Check x.line 0).2 (bitWave x.bits x.last) x.idle := by
  obtain ⟨hr₁, hr₂⟩ := x.released_width
  obtain ⟨hl₁, hl₂⟩ := x.presenceLow_width
  obtain ⟨hh₁, hh₂⟩ := x.presenceHigh_width
  have h := At.start (⟨true, x.released⟩ :: ⟨false, x.presenceLow⟩ :: ⟨true, x.presenceHigh⟩ ::
    bitWave x.bits x.last) x.idle
  obtain ⟨hp₁, h₁⟩ := h.wait (n := 100) (v := true) rfl (Nat.zero_le _) (by simp) hl₁
    (by simp only; omega)
  obtain ⟨hp₂, h₂⟩ := h₁.wait (n := 100) (v := false) rfl (Nat.zero_le _) (by simp) hh₁
    (by simp only; omega)
  unfold dht11Check line
  dsimp only
  rw [if_neg (by rw [hp₁]; simp only; omega), if_neg (by rw [hp₂]; simp only; omega)]
  exact ⟨rfl, Or.inl ⟨x.presenceHigh, 0, Nat.zero_le _, by omega, h₂⟩⟩

/-- The transmission of a frame with typical widths. -/
def nominal (bytes : List UInt8) (h : bytes.length = 5) : Transmission where
  bytes := bytes
  released := 30
  presenceLow := 80
  presenceHigh := 80
  bits := (bytes.flatMap bitsOf).map BitPulse.nominal
  last := 54
  idle := fun _ => true
  frame := h
  released_width := by decide
  presenceLow_width := by decide
  presenceHigh_width := by decide
  encodes := List.map_map.trans (List.map_id _)
  last_width := by decide

/-- **The driver inverts the sensor's encoder.** -/
theorem dht11_decodes : (dht11Check x.line 0).1 = 0 ∧
    dht11ReadBytes x.line 5 (dht11Check x.line 0).2 = x.bytes := by
  obtain ⟨hc, hr⟩ := x.check_ready
  exact ⟨hc, x.frame ▸ readBytes_ready x.last_width x.encodes hr⟩

end Transmission

end DataRecorder
