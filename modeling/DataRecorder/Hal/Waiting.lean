/-
  Waiting for the hardware: the interrupt handler of the UART
  (`SYSTEM/usart/usart.c`) and the transfers of the SD card
  (`HARDWARE/Src/sdio_sdcard.c`).

  The loops of `USART3_IRQHandler` are left when a `u32` exceeds `HAL_MAX_DELAY`,
  the largest `u32`; those of `SD_ReadDisk` and `SD_WriteDisk` take note of a
  timeout and go on.  What the hardware answers to the `n`th question is arbitrary.

  * `usart3IRQHandler_returns_iff`: the handler returns if and only if the UART
    gets ready and the reception is started again;
  * `timely_iff`: a transfer keeps its time if and only if the card does.
-/
import DataRecorder.Base.Loop

namespace DataRecorder

open Base

/-- `HAL_StatusTypeDef`. -/
inductive HalStatus where
  | ok
  | error
  | busy
  | timeout
deriving DecidableEq

def HalStatus.code : HalStatus → UInt8
  | ok => 0x00
  | error => 0x01
  | busy => 0x02
  | timeout => 0x03

theorem HalStatus.code_eq_zero {sta : HalStatus} : sta.code = 0 ↔ sta = .ok := by
  cases sta <;> decide

/-! ## The UART -/

def halMaxDelay : UInt32 := 0xFFFFFFFF

def halUartStateReady : UInt32 := 0x20

/-- What `HAL_UART_GetState` and `HAL_UART_Receive_IT` return in a call of the handler, one time
after the other. -/
structure Uart where
  getState : ℕ → UInt32
  receiveIT : ℕ → HalStatus

/-- The body of a waiting loop of the handler, with the number of questions and `timeout`. -/
def uartWait (ready : ℕ → Prop) [DecidablePred ready] (s : ℕ × UInt32) : Pass (ℕ × UInt32) (ℕ × UInt32) :=
  if ready s.1 then .done s
  else
    let timeout := s.2 + 1
    if timeout > halMaxDelay then .done (s.1, timeout) else .next (s.1 + 1, timeout)

/-- `USART3_IRQHandler` behind `HAL_UART_IRQHandler`, with fuel for each of its loops. -/
def usart3IRQHandler (u : Uart) (fuel : ℕ) : Option Unit := do
  let _ ← loop (uartWait fun n => u.getState n = halUartStateReady) fuel (0, 0)
  let _ ← loop (uartWait fun n => u.receiveIT n = .ok) fuel (0, 0)

/-- The handler returns. -/
def Uart.Returns (u : Uart) : Prop := ∃ fuel, (usart3IRQHandler u fuel).isSome

/-- No `u32` exceeds `HAL_MAX_DELAY`. -/
theorem uartWait_eq_poll (ready : ℕ → Prop) [DecidablePred ready] : uartWait ready = poll ready (· + 1) := by
  funext s
  have hmax : ¬ s.2 + 1 > halMaxDelay := by
    have hlt := (s.2 + 1).toNat_lt
    rw [gt_iff_lt, UInt32.lt_iff_toNat_lt]
    exact Nat.not_lt.2 (Nat.le_of_lt_succ hlt)
  rw [uartWait, poll]
  dsimp only
  rw [if_neg hmax]

theorem usart3IRQHandler_isSome (u : Uart) (fuel : ℕ) : (usart3IRQHandler u fuel).isSome ↔
    (∃ n < fuel, u.getState n = halUartStateReady) ∧ ∃ n < fuel, u.receiveIT n = .ok := by
  rw [← loop_poll_isSome (f := (· + 1)) (s := (0 : UInt32)), ← loop_poll_isSome (f := (· + 1)) (s := (0 : UInt32)),
    ← uartWait_eq_poll, ← uartWait_eq_poll, usart3IRQHandler]
  cases loop (uartWait fun n => u.getState n = halUartStateReady) fuel (0, 0) with
  | none => simp
  | some r => cases loop (uartWait fun n => u.receiveIT n = .ok) fuel (0, 0) <;> simp

/-- **The handler returns** if and only if both of its loops see what they wait for. -/
theorem usart3IRQHandler_returns_iff (u : Uart) : u.Returns ↔
    (∃ n, u.getState n = halUartStateReady) ∧ ∃ n, u.receiveIT n = .ok := by
  simp only [Uart.Returns, usart3IRQHandler_isSome]
  constructor
  · rintro ⟨fuel, ⟨n, -, hn⟩, m, -, hm⟩
    exact ⟨⟨n, hn⟩, m, hm⟩
  · rintro ⟨⟨n, hn⟩, m, hm⟩
    exact ⟨n + m + 1, ⟨n, by omega, hn⟩, m, by omega, hm⟩

/-- The UART never gets ready. -/
theorem not_returns : ¬ ∀ u : Uart, u.Returns := by
  intro h
  obtain ⟨fuel, hfuel⟩ := h ⟨fun _ => 0x24, fun _ => .busy⟩
  obtain ⟨⟨n, -, hn⟩, -⟩ := (usart3IRQHandler_isSome _ _).1 hfuel
  exact (show (0x24 : UInt32) ≠ halUartStateReady by decide) hn

/-! ## The SD card -/

def sdTimeout : UInt32 := 100000000

def sdTransferOk : UInt8 := 0x00

def sdTransferBusy : UInt8 := 0x01

def halSdCardTransfer : UInt32 := 0x00000004

/-- The card: what `HAL_SD_ReadBlocks` and `HAL_SD_WriteBlocks` return, and what
`HAL_SD_GetCardState` returns afterwards, one time after the other. -/
structure SdCard where
  readBlocks : UInt32 → UInt32 → HalStatus
  writeBlocks : UInt32 → UInt32 → HalStatus
  cardState : ℕ → UInt32

/-- `SD_GetCardState`, for the `n`th time. -/
def SdCard.sdGetCardState (card : SdCard) (n : ℕ) : UInt8 :=
  if card.cardState n = halSdCardTransfer then sdTransferOk else sdTransferBusy

/-- What a transfer returns, how often it asked for the card's state, and whether the interrupts are
enabled. -/
structure SdReturn where
  sta : UInt8
  polls : ℕ
  intx : Bool

/-- `if (timeout-- == 0) sta = SD_TRANSFER_BUSY`, for `timeout` and `sta`. -/
def sdCountdown (s : UInt32 × UInt8) : UInt32 × UInt8 := (s.1 - 1, if s.1 = 0 then sdTransferBusy else s.2)

/-- `CPSID I` and `CPSIE I`: whether the interrupts are enabled afterwards. -/
def intxDisable (_ : Bool) : Bool := false

def intxEnable (_ : Bool) : Bool := true

/-- What `SD_ReadDisk` and `SD_WriteDisk` have in common, with the result of the HAL transfer; `intx` tells
whether the interrupts are enabled. -/
def sdTransfer (card : SdCard) (blocks : HalStatus) (intx : Bool) (fuel : ℕ) : Option SdReturn := do
  let intx := intxDisable intx
  let (n, _, sta) ← loop (poll (fun n => card.sdGetCardState n = sdTransferOk) sdCountdown) fuel
    (0, sdTimeout, blocks.code)
  let intx := intxEnable intx
  return ⟨sta, n + 1, intx⟩

def sdReadDisk (card : SdCard) (sector cnt : UInt32) (intx : Bool) (fuel : ℕ) : Option SdReturn :=
  sdTransfer card (card.readBlocks sector cnt) intx fuel

def sdWriteDisk (card : SdCard) (sector cnt : UInt32) (intx : Bool) (fuel : ℕ) : Option SdReturn :=
  sdTransfer card (card.writeBlocks sector cnt) intx fuel

/-- The card gets ready within the budget. -/
def SdCard.InTime (card : SdCard) : Prop := ∃ n ≤ sdTimeout.toNat, card.cardState n = halSdCardTransfer

/-- The transfer returns in time with the interrupts enabled, and what it returns tells whether the
card got ready in time and the HAL transfer was successful. -/
def Timely (card : SdCard) (blocks : HalStatus) (transfer : ℕ → Option SdReturn) : Prop :=
  ∃ fuel r, transfer fuel = some r ∧ r.polls ≤ sdTimeout.toNat + 1 ∧
    (r.sta ≠ 0 ↔ ¬ card.InTime ∨ blocks ≠ .ok) ∧ r.intx = true

theorem SdCard.sdGetCardState_eq_ok {card : SdCard} {n : ℕ} :
    card.sdGetCardState n = sdTransferOk ↔ card.cardState n = halSdCardTransfer := by
  unfold sdGetCardState
  split_ifs with h
  · exact iff_of_true rfl h
  · exact iff_of_false (by decide) h

/-- Nothing happens until the countdown is at zero. -/
theorem iterate_sdCountdown (timeout : UInt32) (sta : UInt8) : ∀ {k : ℕ}, k ≤ timeout.toNat →
    sdCountdown^[k] (timeout, sta) = (timeout - UInt32.ofNat k, sta)
  | 0, _ => by simp
  | k + 1, hk => by
    have hlt := timeout.toNat_lt
    have hne : timeout - UInt32.ofNat k ≠ 0 := by
      intro h
      have hnat := congrArg UInt32.toNat h
      rw [UInt32.toNat_sub, UInt32.toNat_ofNat'] at hnat
      simp only [UInt32.reduceToNat] at hnat
      omega
    rw [Function.iterate_succ_apply', iterate_sdCountdown timeout sta (Nat.le_of_succ_le hk), sdCountdown, if_neg hne]
    congr 1
    simp only [UInt32.ofNat_add]
    grind

theorem sdTransfer_eq_some_iff {card : SdCard} {blocks : HalStatus} {intx : Bool} {fuel : ℕ} {r : SdReturn} :
    sdTransfer card blocks intx fuel = some r ↔ ∃ k < fuel, card.cardState k = halSdCardTransfer ∧
      (∀ j < k, card.cardState j ≠ halSdCardTransfer) ∧
      r = ⟨(sdCountdown^[k] (sdTimeout, blocks.code)).2, k + 1, true⟩ := by
  have hrun : sdTransfer card blocks intx fuel =
      (loop (poll (fun n => card.sdGetCardState n = sdTransferOk) sdCountdown) fuel
        (0, sdTimeout, blocks.code)).map fun s => ⟨s.2.2, s.1 + 1, true⟩ := by
    rw [sdTransfer]
    cases loop (poll (fun n => card.sdGetCardState n = sdTransferOk) sdCountdown) fuel
      (0, sdTimeout, blocks.code) <;> rfl
  rw [hrun, Option.map_eq_some_iff]
  simp only [loop_poll_iff, Nat.zero_add, SdCard.sdGetCardState_eq_ok]
  constructor
  · rintro ⟨s, ⟨k, hk, hready, hfirst, rfl⟩, rfl⟩
    exact ⟨k, hk, hready, hfirst, rfl⟩
  · rintro ⟨k, hk, hready, hfirst, rfl⟩
    exact ⟨_, ⟨k, hk, hready, hfirst, rfl⟩, rfl⟩

theorem sdTransfer_timely_iff (card : SdCard) (blocks : HalStatus) (intx : Bool) :
    Timely card blocks (sdTransfer card blocks intx) ↔ card.InTime := by
  constructor
  · rintro ⟨fuel, r, hr, hpolls, -, -⟩
    obtain ⟨k, -, hready, -, rfl⟩ := sdTransfer_eq_some_iff.1 hr
    exact ⟨k, Nat.le_of_succ_le_succ hpolls, hready⟩
  · intro h
    obtain ⟨hle, hready⟩ := Nat.find_spec h
    have hfirst : ∀ j < Nat.find h, card.cardState j ≠ halSdCardTransfer := fun j hj hj' =>
      Nat.find_min h hj ⟨Nat.le_trans (Nat.le_of_lt hj) hle, hj'⟩
    refine ⟨_, _, sdTransfer_eq_some_iff.2 ⟨_, Nat.lt_succ_self _, hready, hfirst, rfl⟩,
      Nat.succ_le_succ hle, ?_, rfl⟩
    rw [iterate_sdCountdown sdTimeout blocks.code hle]
    show blocks.code ≠ 0 ↔ _
    rw [ne_eq, HalStatus.code_eq_zero, or_iff_right (not_not.2 h)]

/-- **A transfer keeps its time** if and only if the card gets ready within it. -/
theorem timely_iff (card : SdCard) (sector cnt : UInt32) (intx : Bool) :
    (Timely card (card.readBlocks sector cnt) (sdReadDisk card sector cnt intx) ↔ card.InTime) ∧
      (Timely card (card.writeBlocks sector cnt) (sdWriteDisk card sector cnt intx) ↔ card.InTime) :=
  ⟨sdTransfer_timely_iff card _ intx, sdTransfer_timely_iff card _ intx⟩

/-- The card is never ready again after the transfer. -/
theorem not_timely : ¬ ∀ (card : SdCard) (sector cnt : UInt32) (intx : Bool),
    Timely card (card.readBlocks sector cnt) (sdReadDisk card sector cnt intx) := by
  intro h
  obtain ⟨n, -, hn⟩ := (sdTransfer_timely_iff _ _ _).1 (h ⟨fun _ _ => .ok, fun _ _ => .ok, fun _ => 7⟩ 0 1 true)
  exact (show (7 : UInt32) ≠ halSdCardTransfer by decide) hn

end DataRecorder
