/-
  The calibration store on the bus.

  The calibration of the touch screen is saved to, and loaded from, an EEPROM that
  is a function from addresses to bytes.  `Holds` says that the device on the bus
  holds such an EEPROM; the multi-byte calls of the driver, run over the wires, do
  to the device what the store does to the function.
-/
import DataRecorder.Iic.At24cxx
import DataRecorder.Touch.Eeprom

namespace DataRecorder.Iic

open Base Base.TwoWire

variable {A : Touch.Arithmetic} {yields : Bool} {a : UInt8} {m : UInt8 → UInt8} {e : Touch.Eeprom}
  {log : List Condition}

/-- The 256 bytes of the device are the first ones of `e`. -/
def Holds (e : Touch.Eeprom) (m : UInt8 → UInt8) : Prop := ∀ addr : UInt8, m addr = e addr.toNat

def writeCall (w : ℕ × UInt8) : Call := .write (UInt8.ofNat w.1) w.2

theorem toNat_addr {n : ℕ} (h : n < 256) : (UInt8.ofNat n).toNat = n := by
  simpa using Nat.mod_eq_of_lt h

theorem Holds.store {w : ℕ × UInt8} (h : Holds e m) (hw : w.1 < 256) :
    Holds (Function.update e w.1 w.2) ((writeCall w).store m) := by
  intro addr
  rcases eq_or_ne addr (UInt8.ofNat w.1) with rfl | hne
  · rw [toNat_addr hw, Function.update_self]
    exact Function.update_self _ _ _
  · have hne' : addr.toNat ≠ w.1 := fun heq => hne (by rw [← heq, UInt8.ofNat_toNat])
    rw [Function.update_of_ne hne', ← h addr]
    exact Function.update_of_ne hne _ _

/-- Writes of the store are calls on the bus. -/
theorem Holds.contents {ws : List (ℕ × UInt8)} (h : Holds e m) (hws : ∀ w ∈ ws, w.1 < 256) :
    Holds (writes e ws) (contents (ws.map writeCall) m) := by
  induction ws generalizing e m with
  | nil => exact h
  | cons w ws ih =>
    have hw : w.1 < 256 := hws w List.mem_cons_self
    exact ih (h.store hw) fun v hv => hws v (List.mem_cons_of_mem w hv)

/-- **A calibration saved over the bus.** -/
theorem save_over_bus (h : Holds e m) (tp : Touch.AdjData A) :
    ∃ a' m' log', (exec (at24c02 yields) ((Touch.tpSaveAdjdata tp).map writeCall) (ready a m log)).2 =
      ready a' m' log' ∧ Holds (Touch.saved e tp) m' := by
  obtain ⟨a', hexec⟩ := @exec_ready yields ((Touch.tpSaveAdjdata tp).map writeCall) a m log
  refine ⟨a', _, _, by rw [hexec], h.contents fun w hw => ?_⟩
  rw [Touch.tpSaveAdjdata_eq] at hw
  exact (lt_of_mem_upwards hw).trans_le (by simp [Touch.saveAddrBase])

def readStep (D : Device Chip) (readAddr len : ℕ) (r : UInt32 × Bus Chip) (t : ℕ) : UInt32 × Bus Chip :=
  let v := at24cxxReadOneByte D (UInt16.ofNat (readAddr + len - t - 1)) r.2
  ((r.1 <<< 8) + v.1.toUInt32, v.2)

/-- `AT24CXX_ReadLenByte`, over the bus. -/
def at24cxxReadLenByte (D : Device Chip) (readAddr len : ℕ) (b : Bus Chip) : UInt32 × Bus Chip :=
  (List.range len).foldl (readStep D readAddr len) (0, b)

theorem readOneByte_holds (h : Holds e m) {n : ℕ} (hn : n < 256) :
    at24cxxReadOneByte (at24c02 yields) (UInt16.ofNat n) (ready a m log) =
      (e n, ready (UInt8.ofNat n) m (log ++ [.start, .start, .stop])) := by
  have haddr : UInt16.ofNat n = (UInt8.ofNat n).toUInt16 := by
    apply UInt16.toNat_inj.1
    rw [UInt8.toNat_toUInt16, toNat_addr hn]
    have hfit : n < 65536 := by omega
    simpa using Nat.mod_eq_of_lt hfit
  rw [haddr, readOneByte_ready, h, toNat_addr hn]

/-- **A number loaded over the bus.** -/
theorem readLenByte_over_bus (h : Holds e m) {readAddr len : ℕ} (hlen : readAddr + len ≤ 256) :
    ∃ a' log', at24cxxReadLenByte (at24c02 yields) readAddr len (ready a m log) =
      (Touch.at24cxxReadLenByte e readAddr len, ready a' m log') := by
  have hbytes (ts : List ℕ) (hts : ∀ t ∈ ts, t < len) (temp : UInt32) (a : UInt8) (log : List Condition) :
      ∃ a' log', ts.foldl (readStep (at24c02 yields) readAddr len) (temp, ready a m log) =
        (ts.foldl (fun (temp : UInt32) t => (temp <<< 8) + (e (readAddr + len - t - 1)).toUInt32) temp,
          ready a' m log') := by
    induction ts generalizing temp a log with
    | nil => exact ⟨a, log, rfl⟩
    | cons t ts ih =>
      have ht : t < len := hts t List.mem_cons_self
      rw [List.foldl_cons, readStep, readOneByte_holds h (by omega)]
      exact ih (fun u hu => hts u (List.mem_cons_of_mem t hu)) _ _ _
  exact hbytes (List.range len) (fun t ht => List.mem_range.1 ht) 0 a log

end DataRecorder.Iic
