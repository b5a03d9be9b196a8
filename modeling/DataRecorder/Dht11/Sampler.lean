/-
  The sampling loop `read_temp_entry` and its history windows.

  A window is an array of 40 bytes.  A sample is written to its first element,
  and `shift` rotates the array left by one with three reversals.

  * `shift_apply`: `shift` is a rotation; `push_slice`: a pushed sample becomes
    the newest of the window, and the oldest leaves it;
  * `samplerRun_windows`: the windows hold the newest of the values sent;
  * `History xs` states that the windows and the messages of a run follow the
    samples that were read;
  * `history_iff`: the loop takes its branch where `DHT11_Read_Data` reports a
    failure, so this holds exactly for the runs in which every frame is rejected.
-/
import DataRecorder.Dht11.Driver
import DataRecorder.Rtc
import DataRecorder.Base.Memory
import Mathlib.Data.List.Induction
import Mathlib.Logic.Function.Basic

namespace DataRecorder

open Base

/-! ## Rotation by reversal -/

/-- The first `n` passes of the loop of `reverse`. -/
def reversePasses (R : ℕ → UInt8) (first last : ℕ) : ℕ → ℕ → UInt8
  | 0 => R
  | i + 1 =>
    let R := reversePasses R first last i
    Function.update (Function.update R (first + i) (R (last - i))) (last - i) (R (first + i))

/-- `reverse`: the elements from `first` to `last` in the opposite order. -/
def reverse (R : ℕ → UInt8) (first last : ℤ) : ℕ → UInt8 :=
  reversePasses R first.toNat last.toNat ((last - first + 1).tdiv 2).toNat

def shift (R : ℕ → UInt8) (n p : ℤ) : ℕ → UInt8 :=
  let R := reverse R 0 (p - 1)
  let R := reverse R p (n - 1)
  reverse R 0 (n - 1)

theorem reversePasses_apply (R : ℕ → UInt8) {first last k : ℕ} (hk : first + 2 * k ≤ last + 1) (j : ℕ) :
    reversePasses R first last k j =
      if first ≤ j ∧ j < first + k ∨ last < j + k ∧ j ≤ last then R (first + last - j) else R j := by
  induction k generalizing j with
  | zero => rw [if_neg (by omega)]; rfl
  | succ k ih =>
    have hold := ih (by omega)
    rw [reversePasses]
    by_cases hlast : j = last - k
    · -- this pass puts the mirrored element at the upper end
      rw [hlast, Function.update_self, hold, if_neg (by omega), if_pos (by omega)]
      congr 1; omega
    rw [Function.update_of_ne hlast]
    by_cases hfirst : j = first + k
    · -- and at the lower end
      rw [hfirst, Function.update_self, hold, if_neg (by omega), if_pos (by omega)]
      congr 1; omega
    · rw [Function.update_of_ne hfirst, hold]
      by_cases h : first ≤ j ∧ j < first + k ∨ last < j + k ∧ j ≤ last
      · rw [if_pos h, if_pos (by omega)]
      · rw [if_neg h, if_neg (by omega)]

/-- The number of passes between two ends. -/
theorem passes_eq {first n : ℕ} (h : first ≤ n) :
    (((n : ℤ) - 1 - first + 1).tdiv 2).toNat = (n - first) / 2 := by
  rw [show (n : ℤ) - 1 - first + 1 = ((n - first : ℕ) : ℤ) by omega]
  exact Int.toNat_natCast ((n - first) / 2)

theorem reverse_apply (R : ℕ → UInt8) {first n : ℕ} (h : first ≤ n) (j : ℕ) :
    reverse R first ((n : ℤ) - 1) j = if first ≤ j ∧ j < n then R (first + n - 1 - j) else R j := by
  rw [reverse, passes_eq h, Int.toNat_natCast, reversePasses_apply R (by omega)]
  by_cases hmid : first + n - 1 - j = j
  · -- the middle of an odd range stays
    rw [hmid, ite_self]
    by_cases hr : first ≤ j ∧ j < first + (n - first) / 2 ∨
        ((n : ℤ) - 1).toNat < j + (n - first) / 2 ∧ j ≤ ((n : ℤ) - 1).toNat
    · rw [if_pos hr]; congr 1; omega
    · rw [if_neg hr]
  · by_cases hr : first ≤ j ∧ j < n
    · rw [if_pos hr, if_pos (by omega)]; congr 1; omega
    · rw [if_neg hr, if_neg (by omega)]

/-- **`shift` rotates** the first `n` elements left by `p`. -/
theorem shift_apply (R : ℕ → UInt8) {n p : ℕ} (h : p ≤ n) (j : ℕ) :
    shift R n p j = if j < n then R ((j + p) % n) else R j := by
  have hmod : j < n → (j + p) % n = if j + p < n then j + p else j + p - n := by
    intro hj
    split
    · rename_i hlt; exact Nat.mod_eq_of_lt hlt
    · rw [Nat.mod_eq_sub_mod (by omega), Nat.mod_eq_of_lt (by omega)]
  unfold shift
  rw [show (0 : ℤ) = ((0 : ℕ) : ℤ) from rfl, reverse_apply _ (Nat.zero_le n)]
  by_cases hj : j < n
  · rw [if_pos ⟨Nat.zero_le j, hj⟩, if_pos hj, reverse_apply _ h, hmod hj]
    by_cases hjp : j + p < n
    · rw [if_pos hjp, if_pos (by omega), reverse_apply _ (Nat.zero_le p), if_neg (by omega)]
      congr 1; omega
    · rw [if_neg hjp, if_neg (by omega), reverse_apply _ (Nat.zero_le p), if_pos (by omega)]
      congr 1; omega
  · rw [if_neg (by omega), if_neg hj, reverse_apply _ h, if_neg (by omega),
      reverse_apply _ (Nat.zero_le p), if_neg (by omega)]

/-! ## Windows -/

/-- The newest 40 of the values `xs`, after 40 initial zeros. -/
def newest40 (xs : List UInt8) : List UInt8 := (List.replicate 40 0 ++ xs).drop xs.length

theorem newest40_snoc (xs : List UInt8) (v : UInt8) :
    newest40 (xs ++ [v]) = (newest40 xs).drop 1 ++ [v] := by
  unfold newest40
  rw [← List.append_assoc, List.length_append, List.drop_append_of_le_length (by simp), List.drop_drop]
  rfl

/-- Writing a value to the first element and rotating by one pushes it into the
    window. -/
theorem push_slice (R : ℕ → UInt8) (v : UInt8) {n : ℕ} (hn : 0 < n) :
    slice (shift (Function.update R 0 v) n 1) 0 n = (slice R 0 n).drop 1 ++ [v] := by
  obtain ⟨k, rfl⟩ : ∃ k, n = k + 1 := ⟨n - 1, by omega⟩
  have hshift (j : ℕ) := shift_apply (Function.update R 0 v) (n := k + 1) (p := 1) (by omega) j
  rw [slice_drop, slice_add (shift _ _ 1) 0 k 1]
  refine congrArg₂ _ ?_ ?_
  · refine List.ext_getElem (by simp) fun j hj _ => ?_
    rw [slice_length] at hj
    rw [slice_getElem, slice_getElem]
    refine (hshift _).trans ?_
    rw [if_pos (by omega), Nat.mod_eq_of_lt (by omega), Function.update_of_ne (by omega)]
    congr 1; omega
  · have hlast := hshift k
    rw [if_pos (Nat.lt_succ_self k), Nat.mod_self, Function.update_self] at hlast
    rw [slice, List.range_one, List.map_singleton, Nat.add_zero, Nat.zero_add]
    exact congrArg (fun b => [b]) hlast

theorem push_window (R : ℕ → UInt8) (v : UInt8) :
    slice (shift (Function.update R 0 v) 40 1) 0 40 = (slice R 0 40).drop 1 ++ [v] :=
  push_slice R v (by decide)

/-! ## The loop -/

/-- The alarm limits `temperature_H`, `temperature_L`, `humidity_H` and
    `humidity_L`. -/
structure Limits where
  temperatureH : UInt8
  temperatureL : UInt8
  humidityH : UInt8
  humidityL : UInt8

/-- The globals that the loop works on.  `sent` are the messages passed to
    `rt_mq_send`, and `events` counts the calls of `rt_event_send`. -/
structure Sampler where
  value : SensorData
  dataCollection : ℤ
  temperature : ℕ → UInt8
  humidity : ℕ → UInt8
  limits : Limits
  pf10 : Bool
  rtc : Rtc
  sent : List SensorData
  events : ℕ

structure Reading where
  line : Wire
  clock : Rtc

/-- `Warning`: toggles the pin of the lamp while a limit is exceeded. -/
def warning (s : Sampler) : Sampler :=
  if s.temperature 39 > s.limits.temperatureH ∨ s.temperature 39 < s.limits.temperatureL ∨
      s.humidity 39 > s.limits.humidityH ∨ s.humidity 39 < s.limits.humidityL then
    { s with pf10 := !s.pf10 }
  else { s with pf10 := true }

def rtcRead (clock : Rtc) (s : Sampler) : Sampler := { s with rtc := clock }

/-- One iteration of `read_temp_entry`. -/
def Sampler.iterate (s : Sampler) (x : Reading) : Sampler :=
  let r := dht11ReadData x.line s.value
  let s := { s with value := r.2 }
  if r.1 ≠ 0 ∧ s.dataCollection ≠ 0 then
    let s := { s with
      temperature := shift (Function.update s.temperature 0 s.value.temperature) 40 1
      humidity := shift (Function.update s.humidity 0 s.value.humidity) 40 1 }
    let s := rtcRead x.clock (warning s)
    { s with sent := s.sent ++ [s.value], events := s.events + 1 }
  else s

/-- The state in which the loop starts, with `data_collection` set to 1. -/
def Sampler.start (limits : Limits) (pf10 : Bool) (rtc : Rtc) : Sampler where
  value := ⟨0, 0⟩
  dataCollection := 1
  temperature := fun _ => 0
  humidity := fun _ => 0
  limits := limits
  pf10 := pf10
  rtc := rtc
  sent := []
  events := 0

/-! ## What a read yields -/

namespace Reading

def buf (x : Reading) : List UInt8 := dht11ReadBytes x.line 5 (dht11Check x.line 0).2

def Answered (x : Reading) : Prop := (dht11Check x.line 0).1 = 0

/-- The driver's comparison of the sum with the fifth byte. -/
def SumMatches (x : Reading) : Prop :=
  (x.buf.getD 0 0).toNat + (x.buf.getD 1 0).toNat + (x.buf.getD 2 0).toNat + (x.buf.getD 3 0).toNat =
    (x.buf.getD 4 0).toNat

def Rejected (x : Reading) : Prop := x.Answered ∧ ¬ x.SumMatches

instance (x : Reading) : Decidable x.Answered := inferInstanceAs (Decidable (_ = _))
instance (x : Reading) : Decidable x.SumMatches := inferInstanceAs (Decidable (_ = _))

/-- The sample of a successful read: the sensor answers and the frame is
    accepted. -/
def sample (x : Reading) : Option SensorData :=
  if x.Answered ∧ x.SumMatches then some ⟨x.buf.getD 2 0, x.buf.getD 0 0⟩ else none

/-- `DHT11_Read_Data` returns 1 only if the sensor does not answer, and changes
    the value only by an accepted frame. -/
theorem readData (x : Reading) (value : SensorData) :
    dht11ReadData x.line value = (if x.Answered then 0 else 1, x.sample.getD value) := by
  unfold dht11ReadData sample SumMatches Answered buf
  by_cases hc : (dht11Check x.line 0).1 = 0
  · simp only [hc, ↓reduceIte, true_and]
    split <;> rfl
  · simp only [hc, ↓reduceIte, false_and, Option.getD_none]

end Reading

section
variable (s₀ : Sampler)

def samplerRun (xs : List Reading) : Sampler := xs.foldl Sampler.iterate s₀

def samples (xs : List Reading) : List SensorData := xs.filterMap Reading.sample

/-- The windows and the messages follow the successful reads: after every
    iteration the windows hold the newest 40 samples; a failed read changes
    neither windows nor messages, a successful one pushes its sample to both. -/
structure History (xs : List Reading) : Prop where
  window : ∀ ys, ys <+: xs →
    slice (samplerRun s₀ ys).temperature 0 40 = newest40 ((samples ys).map SensorData.temperature) ∧
      slice (samplerRun s₀ ys).humidity 0 40 = newest40 ((samples ys).map SensorData.humidity)
  failed : ∀ ys x, ys ++ [x] <+: xs → x.sample = none →
    slice (samplerRun s₀ (ys ++ [x])).temperature 0 40 = slice (samplerRun s₀ ys).temperature 0 40 ∧
      slice (samplerRun s₀ (ys ++ [x])).humidity 0 40 = slice (samplerRun s₀ ys).humidity 0 40 ∧
      (samplerRun s₀ (ys ++ [x])).sent = (samplerRun s₀ ys).sent
  pushed : ∀ ys x v, ys ++ [x] <+: xs → x.sample = some v →
    slice (samplerRun s₀ (ys ++ [x])).temperature 0 40 =
        (slice (samplerRun s₀ ys).temperature 0 40).drop 1 ++ [v.temperature] ∧
      slice (samplerRun s₀ (ys ++ [x])).humidity 0 40 =
        (slice (samplerRun s₀ ys).humidity 0 40).drop 1 ++ [v.humidity] ∧
      (samplerRun s₀ (ys ++ [x])).sent = (samplerRun s₀ ys).sent ++ [v]

variable {s₀}

theorem samplerRun_snoc (xs : List Reading) (x : Reading) :
    samplerRun s₀ (xs ++ [x]) = (samplerRun s₀ xs).iterate x := by
  simp [samplerRun]

/-! ## One iteration -/

@[simp] theorem warning_keeps (s : Sampler) : (warning s).value = s.value ∧
    (warning s).temperature = s.temperature ∧ (warning s).humidity = s.humidity ∧
    (warning s).sent = s.sent ∧ (warning s).dataCollection = s.dataCollection := by
  unfold warning; split <;> exact ⟨rfl, rfl, rfl, rfl, rfl⟩

theorem iterate_dataCollection (s : Sampler) (x : Reading) :
    (s.iterate x).dataCollection = s.dataCollection := by
  unfold Sampler.iterate rtcRead
  dsimp only; split
  · exact (warning_keeps _).2.2.2.2
  · rfl

theorem iterate_answered {s : Sampler} {x : Reading} (h : x.Answered) :
    s.iterate x = { s with value := x.sample.getD s.value } := by
  unfold Sampler.iterate
  rw [x.readData, if_pos h]
  exact if_neg fun hc => hc.1 rfl

/-- Where it does not, the value of an earlier read is sent once more. -/
theorem iterate_silent {s : Sampler} {x : Reading} (h : ¬ x.Answered) (hd : s.dataCollection ≠ 0) :
    (s.iterate x).sent = s.sent ++ [s.value] := by
  have hs : x.sample = none := if_neg fun ha => h ha.1
  unfold Sampler.iterate rtcRead
  rw [x.readData, if_neg h, hs]
  dsimp only
  rw [if_pos ⟨by decide, hd⟩]
  simp only [warning_keeps, Option.getD_none]

theorem iterate_cases (s : Sampler) (x : Reading) :
    ((s.iterate x).temperature = s.temperature ∧ (s.iterate x).humidity = s.humidity ∧
      (s.iterate x).sent = s.sent) ∨
    ∃ v : SensorData, (s.iterate x).temperature = shift (Function.update s.temperature 0 v.temperature) 40 1 ∧
      (s.iterate x).humidity = shift (Function.update s.humidity 0 v.humidity) 40 1 ∧
      (s.iterate x).sent = s.sent ++ [v] := by
  unfold Sampler.iterate rtcRead
  dsimp only
  split
  · refine Or.inr ⟨(dht11ReadData x.line s.value).2, ?_⟩
    simp only [warning_keeps, and_self]
  · exact Or.inl ⟨rfl, rfl, rfl⟩

/-! ## Runs -/

theorem samplerRun_dataCollection (h : s₀.dataCollection = 1) (xs : List Reading) :
    (samplerRun s₀ xs).dataCollection = 1 := by
  induction xs using List.reverseRecOn with
  | nil => exact h
  | append_singleton xs x ih => rw [samplerRun_snoc, iterate_dataCollection, ih]

theorem samplerRun_rejected {xs : List Reading} (h : ∀ x ∈ xs, x.Rejected) : samplerRun s₀ xs = s₀ := by
  induction xs using List.reverseRecOn with
  | nil => rfl
  | append_singleton xs x ih =>
    obtain ⟨ha, hs⟩ := h x (by simp)
    have hnone : x.sample = none := if_neg fun hc => hs hc.2
    rw [samplerRun_snoc, iterate_answered ha, hnone, ih fun y hy => h y (by simp [hy])]
    rfl

theorem samples_rejected {xs : List Reading} (h : ∀ x ∈ xs, x.Rejected) : samples xs = [] :=
  List.filterMap_eq_nil_iff.2 fun x hx => if_neg fun hc => (h x hx).2 hc.2

/-- **The windows follow the messages**: they hold the newest 40 of the values sent. -/
theorem samplerRun_windows (h : s₀.temperature = fun _ => 0) (h' : s₀.humidity = fun _ => 0)
    (hsent : s₀.sent = []) (xs : List Reading) :
    slice (samplerRun s₀ xs).temperature 0 40 =
        newest40 ((samplerRun s₀ xs).sent.map SensorData.temperature) ∧
      slice (samplerRun s₀ xs).humidity 0 40 =
        newest40 ((samplerRun s₀ xs).sent.map SensorData.humidity) := by
  induction xs using List.reverseRecOn with
  | nil =>
    rw [samplerRun, List.foldl_nil, h, h', hsent]
    exact ⟨rfl, rfl⟩
  | append_singleton xs x ih =>
    obtain ⟨iht, ihh⟩ := ih
    rw [samplerRun_snoc]
    rcases iterate_cases (samplerRun s₀ xs) x with ⟨ht, hh, hs⟩ | ⟨v, ht, hh, hs⟩
    · rw [ht, hh, hs]
      exact ⟨iht, ihh⟩
    · rw [ht, hh, hs, push_window, push_window, iht, ihh, List.map_append, List.map_append]
      exact ⟨(newest40_snoc _ _).symm, (newest40_snoc _ _).symm⟩

theorem rejected_of_history (hd : s₀.dataCollection = 1) {xs : List Reading} (h : History s₀ xs) :
    ∀ x ∈ xs, x.Rejected := by
  intro x hx
  obtain ⟨ys, zs, rfl⟩ := List.append_of_mem hx
  have hpre : ys ++ [x] <+: ys ++ x :: zs := ⟨zs, by simp⟩
  by_cases ha : x.Answered
  · refine ⟨ha, fun hs => ?_⟩
    -- an accepted frame is not sent
    have hsent := (h.pushed ys x _ hpre (if_pos ⟨ha, hs⟩)).2.2
    rw [samplerRun_snoc, iterate_answered ha] at hsent
    simp at hsent
  · -- a missing sensor leads to a message
    have hsent := (h.failed ys x hpre (if_neg fun hc => ha hc.1)).2.2
    have hdata := samplerRun_dataCollection hd ys
    rw [samplerRun_snoc, iterate_silent ha (by rw [hdata]; decide)] at hsent
    simp at hsent

end

section
variable (limits : Limits) (pf10 : Bool) (rtc : Rtc)

/-- **The history windows** follow the samples exactly in the runs in which the
    sensor always answers with a frame that is rejected. -/
theorem history_iff (xs : List Reading) :
    History (Sampler.start limits pf10 rtc) xs ↔ ∀ x ∈ xs, x.Rejected := by
  refine ⟨rejected_of_history rfl, fun h => ?_⟩
  have hkeep (ys : List Reading) (hy : ys <+: xs) :
      samplerRun (Sampler.start limits pf10 rtc) ys = Sampler.start limits pf10 rtc :=
    samplerRun_rejected fun y hm => h y (hy.subset hm)
  constructor
  · intro ys hy
    rw [hkeep ys hy, samples_rejected fun y hm => h y (hy.subset hm)]
    exact ⟨rfl, rfl⟩
  · intro ys x hy _
    rw [hkeep _ hy, hkeep ys ((List.prefix_append ys [x]).trans hy)]
    exact ⟨rfl, rfl, rfl⟩
  · intro ys x v hy hv
    have hx := h x (hy.subset (by simp))
    rw [show x.sample = none from if_neg fun hc => hx.2 hc.2] at hv
    cases hv

end

/-- Without a sensor the line stays high, and the first iteration already sends a
    sample that was never read. -/
theorem not_history : ¬ ∀ (limits : Limits) (pf10 : Bool) (rtc : Rtc) (xs : List Reading),
    History (Sampler.start limits pf10 rtc) xs := by
  intro h
  let clock : Rtc := ⟨⟨12, 30, 10⟩, ⟨2021, 4, 24⟩⟩
  have hrej := rejected_of_history rfl (h ⟨40, 15, 90, 10⟩ true clock [⟨fun _ => true, clock⟩])
  have hans := (hrej _ List.mem_cons_self).1
  have hhigh : ∀ n t, polls (fun _ => true) true n t = n := polls_const fun _ => rfl
  simp [Reading.Answered, dht11Check, hhigh] at hans

end DataRecorder
