/-
  Which frames the sensor drivers take (`HARDWARE/Src/dht11.c`,
  `HARDWARE/Src/dht22.c`).

  Both sensors send four bytes and their sum, modulo 256.  `DHT11_Read_Data`
  compares an `int` sum with the fifth byte and returns 0 whatever the outcome;
  `DHT22_Read_Data` compares a `u8` sum, and delivers the frame in both branches.

  * `Genuine line`: the sensor answers with a frame whose sum is right;
  * `takesFrames_iff`: when the two drivers take genuine frames and no others.
-/
import DataRecorder.Base.Float
import DataRecorder.Dht11.Driver

namespace DataRecorder

open Base

/-! ## The DHT22 driver -/

/-- What `*temperature` and `*humidity` hold. -/
structure Climate (R : Rounding) where
  temperature : FloatVal R
  humidity : FloatVal R
deriving DecidableEq

/-- `DHT22_Check` is `DHT11_Check` on its own line, as are the functions that read it. -/
def dht22Check (line : Wire) (t : ℕ) : UInt8 × ℕ := dht11Check line t

def dht22ReadBytes (line : Wire) (n t : ℕ) : List UInt8 := dht11ReadBytes line n t

/-- `(float)((high << 8) + low) / 10`. -/
def tenths {R : Rounding} (high low : UInt8) : FloatVal R :=
  (FloatVal.ofInt (high.toNat * 256 + low.toNat : ℕ)).div (.ofInt 10)

/-- `DHT22_Read_Data`: the returned value, and what the two results hold afterwards. -/
def dht22ReadData {R : Rounding} (line : Wire) (_ : Climate R) : UInt8 × Climate R :=
  let value : Climate R := ⟨.ofInt 0, .ofInt 0⟩
  let check := dht22Check line 0
  if check.1 = 0 then
    let buf := dht22ReadBytes line 5 check.2
    let sum := buf.getD 0 0 + buf.getD 1 0 + buf.getD 2 0 + buf.getD 3 0
    let value := if sum = buf.getD 4 0 then
        { value with
          humidity := tenths (buf.getD 0 0) (buf.getD 1 0)
          temperature := tenths (buf.getD 2 0) (buf.getD 3 0) }
      else
        { value with
          humidity := tenths (buf.getD 0 0) (buf.getD 1 0)
          temperature := tenths (buf.getD 2 0) (buf.getD 3 0) }
    (0, value)
  else (1, value)

/-! ## Frames -/

/-- The sensor answers the presence check. -/
def Answers (line : Wire) : Prop := (dht11Check line 0).1 = 0

/-- Byte `i` of the frame on the line. -/
def frameByte (line : Wire) (i : ℕ) : UInt8 := (dht11ReadBytes line 5 (dht11Check line 0).2).getD i 0

/-- The sum of the first four bytes. -/
def frameSum (line : Wire) : ℕ :=
  (frameByte line 0).toNat + (frameByte line 1).toNat + (frameByte line 2).toNat + (frameByte line 3).toNat

def SumRight (line : Wire) : Prop := (frameByte line 4).toNat = frameSum line % 256

/-- The sensor answers, and the frame is as it was sent. -/
def Genuine (line : Wire) : Prop := Answers line ∧ SumRight line

instance (line : Wire) : Decidable (Answers line) := inferInstanceAs (Decidable (_ = _))
instance (line : Wire) : Decidable (SumRight line) := inferInstanceAs (Decidable (_ = _))

/-- The reading of a DHT11 frame. -/
def frameData (line : Wire) : SensorData := ⟨frameByte line 2, frameByte line 0⟩

/-- `DHT11_Read_Data` reports the genuine frames and no others, delivers these, and touches
nothing otherwise. -/
structure Dht11Takes (line : Wire) (value : SensorData) : Prop where
  returns : (dht11ReadData line value).1 = 0 ↔ Genuine line
  delivers : Genuine line → (dht11ReadData line value).2 = frameData line
  keeps : ¬ Genuine line → (dht11ReadData line value).2 = value

/-- `DHT22_Read_Data` reports the genuine frames and no others, and delivers nothing of the
others: its results are what they were, or zero. -/
structure Dht22Takes {R : Rounding} (line : Wire) (value : Climate R) : Prop where
  returns : (dht22ReadData line value).1 = 0 ↔ Genuine line
  hides : ¬ Genuine line → (dht22ReadData line value).2 = value ∨
    (dht22ReadData line value).2 = ⟨.ofInt 0, .ofInt 0⟩

/-! ## What the drivers do with a frame -/

section
variable {R : Rounding} (line : Wire)

theorem dht11ReadData_eq (value : SensorData) : dht11ReadData line value =
    (if Answers line then 0 else 1,
      if Answers line ∧ frameSum line = (frameByte line 4).toNat then frameData line else value) := by
  unfold dht11ReadData Answers
  by_cases hc : (dht11Check line 0).1 = 0
  · simp only [hc, ↓reduceIte, true_and]
    unfold frameSum frameData frameByte
    split <;> rfl
  · simp only [hc, ↓reduceIte, false_and]

theorem dht22ReadData_eq (value : Climate R) : dht22ReadData line value =
    if Answers line then (0, ⟨tenths (frameByte line 2) (frameByte line 3),
      tenths (frameByte line 0) (frameByte line 1)⟩)
    else (1, ⟨.ofInt 0, .ofInt 0⟩) := by
  unfold dht22ReadData Answers dht22Check
  by_cases hc : (dht11Check line 0).1 = 0
  · simp only [hc, ↓reduceIte, ite_self]
    rfl
  · simp only [hc, ↓reduceIte]

/-- The `u8` sum of the DHT22 driver is right exactly where the frame's is. -/
theorem sumRight_iff : SumRight line ↔
    frameByte line 0 + frameByte line 1 + frameByte line 2 + frameByte line 3 = frameByte line 4 := by
  rw [← UInt8.toNat_inj]
  simp only [SumRight, frameSum, UInt8.toNat_add]
  omega

/-- The DHT11 driver compares before the sum is reduced. -/
theorem frameSum_eq_iff : frameSum line = (frameByte line 4).toNat ↔ SumRight line ∧ frameSum line < 256 := by
  have hlt := (frameByte line 4).toNat_lt
  unfold SumRight
  omega

theorem dht11Takes_iff (value : SensorData) : Dht11Takes line value ↔
    ¬ Answers line ∨ SumRight line ∧ (frameSum line < 256 ∨ value = frameData line) := by
  have hdata := dht11ReadData_eq line value
  by_cases ha : Answers line
  swap
  · -- no answer: the driver returns 1 and touches nothing
    rw [if_neg ha, if_neg fun h => ha h.1] at hdata
    have hg : ¬ Genuine line := fun h => ha h.1
    refine ⟨fun _ => Or.inl ha, fun _ => ⟨?_, fun h => absurd h hg, fun _ => by rw [hdata]⟩⟩
    rw [hdata]
    exact iff_of_false (by simp) hg
  rw [if_pos ha] at hdata
  constructor
  · -- the driver returns 0, so the frame has to be genuine
    intro h
    have hs : SumRight line := (h.returns.1 (by rw [hdata])).2
    refine Or.inr ⟨hs, ?_⟩
    by_cases hlt : frameSum line < 256
    · exact Or.inl hlt
    · have hkept := h.delivers ⟨ha, hs⟩
      rw [hdata, if_neg fun h => hlt ((frameSum_eq_iff line).1 h.2).2] at hkept
      exact Or.inr hkept
  · rintro (h | ⟨hs, h⟩)
    · exact absurd ha h
    refine ⟨?_, fun _ => ?_, fun hg => absurd ⟨ha, hs⟩ hg⟩
    · rw [hdata]
      exact iff_of_true rfl ⟨ha, hs⟩
    · rw [hdata]
      dsimp only
      split_ifs with hc
      · rfl
      · rcases h with hlt | rfl
        · exact absurd ⟨ha, (frameSum_eq_iff line).2 ⟨hs, hlt⟩⟩ hc
        · rfl

theorem dht22Takes_iff (value : Climate R) : Dht22Takes line value ↔ ¬ Answers line ∨ SumRight line := by
  have hdata := dht22ReadData_eq line value
  by_cases ha : Answers line
  · rw [if_pos ha] at hdata
    constructor
    · intro h
      exact Or.inr (h.returns.1 (by rw [hdata])).2
    · rintro (h | hs)
      · exact absurd ha h
      · refine ⟨?_, fun hg => absurd ⟨ha, hs⟩ hg⟩
        rw [hdata]
        exact iff_of_true rfl ⟨ha, hs⟩
  · rw [if_neg ha] at hdata
    refine ⟨fun _ => Or.inl ha, fun _ => ⟨?_, fun _ => Or.inr (by rw [hdata])⟩⟩
    rw [hdata]
    exact iff_of_false (by simp) fun h => ha h.1

/-- **Which frames are taken.**  Both drivers take genuine frames and no others exactly where
the sensor does not answer, or its sum is right and, for the DHT11 driver, needs no reduction. -/
theorem takesFrames_iff (value : SensorData) (climate : Climate R) :
    Dht11Takes line value ∧ Dht22Takes line climate ↔
      ¬ Answers line ∨ SumRight line ∧ (frameSum line < 256 ∨ value = frameData line) := by
  rw [dht11Takes_iff, dht22Takes_iff]
  constructor
  · intro h
    exact h.1
  · intro h
    exact ⟨h, h.imp_right And.left⟩

end

/-- Every frame is sent on some line. -/
theorem frame_nominal (bytes : List UInt8) (h : bytes.length = 5) :
    Answers (Transmission.nominal bytes h).line ∧
      ∀ i, frameByte (Transmission.nominal bytes h).line i = bytes.getD i 0 := by
  obtain ⟨ha, hb⟩ := (Transmission.nominal bytes h).dht11_decodes
  refine ⟨ha, fun i => ?_⟩
  rw [frameByte, hb]
  rfl

/-- The sensor answers with a frame whose sum is off by one. -/
theorem not_takesFrames : ¬ ∀ (line : Wire) (value : SensorData) (climate : Climate exact),
    Dht11Takes line value ∧ Dht22Takes line climate := by
  intro h
  obtain ⟨ha, hb⟩ := frame_nominal [50, 0, 25, 0, 74] rfl
  rcases (takesFrames_iff _ ⟨0, 0⟩ ⟨.ofInt 0, .ofInt 0⟩).1 (h _ _ _) with hna | ⟨hs, -⟩
  · exact hna ha
  · rw [SumRight, frameSum, hb, hb, hb, hb, hb] at hs
    exact absurd hs (by decide)

end DataRecorder
