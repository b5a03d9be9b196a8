/-
  The stored calibration over many power cycles (`TP_Init` in
  `HARDWARE/TOUCH/touch.c`, `touch_entry` in `GUI_APP/Src/menu.c`).

  Both callers of `TP_Adjust` save `tp_dev` when it returns, also when it returns
  because nothing was pressed.  The stored calibration is one of those that passed
  (`Genuine`) as long as no such return does harm (`genuine_of_noHarm`).
-/
import DataRecorder.Base.System
import DataRecorder.Touch.Adjust

namespace DataRecorder.Touch

open Base

variable {A : Arithmetic}

/-- The touch thread: the EEPROM, `tp_dev`, whether `touch_entry` has reached its loop, and the
calibrations that passed, the last first. -/
structure TouchThread (A : Arithmetic) where
  eeprom : Eeprom
  tp : TpDev A
  running : Bool
  passed : List (AdjData A)

/-- `TP_Adjust`, and the `TP_Save_Adjdata` after it: `none` if the scans end before the loop. -/
def adjustAndSave (lcd : Lcd) (scans : List Sample) (s : TouchThread A) : Option (TouchThread A) :=
  match (Adjust.start s.tp).loop lcd scans with
  | .running _ => none
  | .accepted tp => some { s with
      eeprom := saved (saved s.eeprom tp.toAdjData) tp.toAdjData, tp := tp,
      passed := tp.toAdjData :: s.passed }
  | .timedOut tp =>
    let tp := (tpGetAdjdata s.eeprom tp).getD tp
    some { s with eeprom := saved s.eeprom tp.toAdjData, tp := tp }

/-- `tp_dev` after the first reading of `TP_Init`. -/
def firstReading (dout : UInt8 → ℕ → UInt16) : TpDev A :=
  { TpDev.reset with
    x0 := (tpReadXY (.reset : TpDev A) dout 0).1, y0 := (tpReadXY (.reset : TpDev A) dout 0).2 }

/-- `TP_Init` on a resistive panel.  It does not return if a calibration does not end. -/
def tpInit (lcd : Lcd) (dout : UInt8 → ℕ → UInt16) (scans : List Sample) (s : TouchThread A) : TouchThread A :=
  match tpGetAdjdata s.eeprom (firstReading dout) with
  | some tp => { s with tp := tp, running := true }
  | none =>
    match adjustAndSave lcd scans { s with tp := firstReading dout } with
    | none => { s with tp := firstReading dout, running := false }
    | some s => { s with tp := (tpGetAdjdata s.eeprom s.tp).getD s.tp, running := true }

inductive Action where
  /-- power is switched on: what the converter reads first, and what a calibration scans -/
  | powerUp (dout : UInt8 → ℕ → UInt16) (scans : List Sample)
  /-- a pass of the loop of `touch_entry`: its scan, and what a calibration scans if `KEY0` is
  pressed -/
  | pass (x : Sample) (key0 : Option (List Sample))

def step (lcd : Lcd) : Action → TouchThread A → Option (TouchThread A)
  | .powerUp dout scans, s => some (tpInit lcd dout scans s)
  | .pass x key0, s =>
    if s.running then
      match key0 with
      | none => some { s with tp := tpScan false x s.tp }
      | some scans =>
        some ((adjustAndSave lcd scans { s with tp := tpScan false x s.tp }).getD
          { s with running := false })
    else none

def start (e : Eeprom) : TouchThread A := ⟨e, .reset, false, []⟩

/-- **Whenever the marker is set, the stored calibration is one that passed**, and it is not
loaded with a factor zero. -/
structure Genuine (lcd : Lcd) (s : TouchThread A) : Prop where
  stored : s.eeprom (saveAddrBase + 13) = 0x0A → ∃ d ∈ s.passed,
    (∃ pos tp, calibrate lcd pos tp = .accepted d) ∧ slice s.eeprom saveAddrBase 13 = recordBytes d
  loaded : ∀ tp tp' : TpDev A, tpGetAdjdata s.eeprom tp = some tp' →
    tp'.xfac.val ≠ .num 0 ∧ tp'.yfac.val ≠ .num 0

def Ending.isTimedOut {σ : Type} : Ending A σ → Bool
  | .timedOut _ => true
  | _ => false

def TimesOut (lcd : Lcd) (tp : TpDev A) (scans : List Sample) : Prop :=
  ((Adjust.start tp).loop lcd scans).isTimedOut

instance (lcd : Lcd) (tp : TpDev A) (scans : List Sample) : Decidable (TimesOut lcd tp scans) :=
  inferInstanceAs (Decidable (_ = true))

/-- A `TP_Adjust` that times out loads a record, and saving this record again writes the same
bytes. -/
def Harmless (A : Arithmetic) (e : Eeprom) : Prop :=
  e (saveAddrBase + 13) = 0x0A ∧
    recordBytes (readAdj e : AdjData A) = slice e saveAddrBase 13

/-- No `TP_Adjust` of the step times out with harm. -/
def NoHarm (lcd : Lcd) (s : TouchThread A) : Action → Prop
  | .powerUp dout scans => s.eeprom (saveAddrBase + 13) ≠ 0x0A →
      ¬ TimesOut lcd (firstReading dout : TpDev A) scans
  | .pass x key0 => ∀ scans ∈ key0, TimesOut lcd (tpScan false x s.tp) scans → Harmless A s.eeprom

/-! ## Rounds that pass -/

theorem Adjust.tick_ne_accepted (s : Adjust A) (tp : TpDev A) : s.tick ≠ .accepted tp := by
  unfold Adjust.tick
  split_ifs <;> nofun

variable {lcd : Lcd}

theorem Adjust.step_accepted {s : Adjust A} {x : Sample} {tp : TpDev A}
    (h : s.step lcd x = .accepted tp) : ∃ pos tp₀, calibrate lcd pos tp₀ = .accepted tp.toAdjData := by
  unfold Adjust.step at h
  dsimp only at h
  split at h
  · split at h
    · split at h
      · cases h
      · cases h
      · next d hd =>
        cases h
        exact ⟨_, _, hd⟩
    · exact absurd h (Adjust.tick_ne_accepted _ _)
  · exact absurd h (Adjust.tick_ne_accepted _ _)

/-- `TP_Adjust` returns early with a calibration that passed. -/
theorem Adjust.loop_accepted {tp : TpDev A} :
    ∀ {xs : List Sample} {s : Adjust A}, s.loop lcd xs = .accepted tp →
      ∃ pos tp₀, calibrate lcd pos tp₀ = .accepted tp.toAdjData
  | [], _, h => by cases h
  | x :: xs, s, h => by
    rw [Adjust.loop] at h
    split at h
    · exact loop_accepted h
    · next hs => cases h; exact step_accepted hs
    · cases h

/-! ## Runs -/

/-- The record in the EEPROM, if there is one, is one that passed. -/
structure Sound (lcd : Lcd) (s : TouchThread A) : Prop where
  passed : ∀ d ∈ s.passed, ∃ pos tp, calibrate lcd pos tp = .accepted d
  stored : s.eeprom (saveAddrBase + 13) = 0x0A →
    ∃ d ∈ s.passed, slice s.eeprom saveAddrBase 13 = recordBytes d

variable {s s' : TouchThread A}

theorem Sound.tp (h : Sound lcd s) (tp : TpDev A) (running : Bool) :
    Sound lcd { s with tp := tp, running := running } := ⟨h.passed, h.stored⟩

theorem Sound.adjustAndSave {scans : List Sample} (h : Sound lcd s)
    (hharm : TimesOut lcd s.tp scans → Harmless A s.eeprom)
    (hs : adjustAndSave lcd scans s = some s') : Sound lcd s' := by
  unfold Touch.adjustAndSave at hs
  split at hs
  · cases hs
  · next tp htp =>
    cases hs
    refine ⟨fun d hd => ?_, fun _ => ⟨_, List.mem_cons_self, slice_saved _ _⟩⟩
    rcases List.mem_cons.1 hd with rfl | hd
    · exact Adjust.loop_accepted htp
    · exact h.passed d hd
  · next tp htp =>
    cases hs
    obtain ⟨hmark, hsame⟩ := hharm (by rw [TimesOut, htp]; rfl)
    refine ⟨h.passed, fun _ => ?_⟩
    obtain ⟨d, hd, hslice⟩ := h.stored hmark
    refine ⟨d, hd, ?_⟩
    rw [tpGetAdjdata_of_marker _ hmark, Option.getD_some, slice_saved, TpDev.selectAxes_toAdjData, hsame,
      hslice]

theorem Sound.step {a : Action} (h : Sound lcd s) (hg : NoHarm lcd s a)
    (hs : step lcd a s = some s') : Sound lcd s' := by
  cases a with
  | powerUp dout scans =>
    obtain rfl := Option.some.inj hs
    unfold tpInit
    split
    · exact h.tp _ _
    · next hnone =>
      have hmark : s.eeprom (saveAddrBase + 13) ≠ 0x0A := fun hmark => by
        rw [tpGetAdjdata_of_marker _ hmark] at hnone; cases hnone
      split
      · exact h.tp _ _
      · next s' hs' =>
        exact ((h.tp _ s.running).adjustAndSave (fun ht => absurd ht (hg hmark)) hs').tp _ _
  | pass x key0 =>
    by_cases hrun : s.running
    swap
    · rw [show Touch.step lcd (.pass x key0) s = none from if_neg hrun] at hs; cases hs
    rw [show Touch.step lcd (.pass x key0) s = _ from if_pos hrun] at hs
    cases key0 with
    | none => cases hs; exact h.tp _ _
    | some scans =>
      obtain rfl := Option.some.inj hs
      cases hs' : Touch.adjustAndSave lcd scans { s with tp := tpScan false x s.tp } with
      | none => exact h.tp _ _
      | some s' => exact (h.tp _ s.running).adjustAndSave (hg scans rfl) hs'

theorem Sound.genuine {s : TouchThread .ieee} (h : Sound lcd s) : Genuine lcd s where
  stored hmark := by
    obtain ⟨d, hd, hslice⟩ := h.stored hmark
    exact ⟨d, hd, h.passed d hd, hslice⟩
  loaded tp tp' hget := by
    by_cases hmark : s.eeprom (saveAddrBase + 13) = 0x0A
    · obtain ⟨d, hd, hslice⟩ := h.stored hmark
      obtain ⟨pos, tp₀, hcal⟩ := h.passed d hd
      obtain ⟨hx, hy⟩ := tempOf_calibrate hcal
      rw [tpGetAdjdata_of_marker _ hmark] at hget
      obtain rfl := Option.some.inj hget
      rw [TpDev.selectAxes_toAdjData, readAdj_of_slice hslice]
      exact ⟨facOf_ne_zero hx, facOf_ne_zero hy⟩
    · rw [tpGetAdjdata, if_neg hmark] at hget
      cases hget

/-- **Every run in which no calibration times out with harm.** -/
theorem genuine_of_noHarm {e : Eeprom} {as : List Action} {s : TouchThread .ieee}
    (he : e (saveAddrBase + 13) ≠ 0x0A)
    (hg : Guarded (step lcd) (NoHarm lcd) (start e : TouchThread .ieee) as)
    (h : run (step lcd) as (start e) = some s) : Genuine lcd s :=
  (hg.run_inv (I := Sound lcd) (fun _ _ _ hs hg hstep => hs.step hg hstep)
    ⟨fun _ hd => absurd hd List.not_mem_nil, fun hmark => absurd hmark he⟩ h).genuine

/-! ## Two runs -/

def blank : Eeprom := fun _ => 0xFF

def penUp : Sample := ⟨false, fun _ _ => 0⟩

/-- The pen rests on a point of the converter's plane. -/
def penAt (x y : UInt16) : Sample := ⟨true, fun cmd _ => if cmd = 0xD0 then x <<< 4 else y <<< 4⟩

/-- The four crosses of the display are touched, and nothing is wrong with the readings. -/
def fourPoints : List Sample :=
  [penAt 100 100, penUp, penAt 300 100, penUp, penAt 100 380, penUp, penAt 300 380, penUp]

/-- A calibration at the first power-up, a pass of the loop, and a second power-up. -/
def twoPowerUps : List Action :=
  [.powerUp penUp.dout fourPoints, .pass penUp none, .powerUp penUp.dout []]

theorem twoPowerUps_genuine : ∃ s : TouchThread .ieee,
    run (step portrait) twoPowerUps (start blank) = some s ∧
      s.eeprom (saveAddrBase + 13) = 0x0A ∧ Genuine portrait s := by
  have hrun : (run (step portrait) twoPowerUps (start blank : TouchThread .ieee)).map
      (fun s => s.eeprom (saveAddrBase + 13)) = some 0x0A := by decide +kernel
  have hg : Guarded (step portrait) (NoHarm portrait) (start blank : TouchThread .ieee) twoPowerUps :=
    ⟨fun _ => by decide +kernel, fun _ _ => ⟨nofun, fun _ _ => ⟨fun _ => nofun, fun _ _ => trivial⟩⟩⟩
  obtain ⟨s, hs, hmark⟩ := Option.map_eq_some_iff.1 hrun
  exact ⟨s, hs, hmark, genuine_of_noHarm (by decide) hg hs⟩

/-- A scan of a pen that was up and stays up only counts. -/
theorem Adjust.step_idle (lcd : Lcd) {s : Adjust A} {x : Sample} (hpen : x.pen = false)
    (hsta : s.tp.sta = 0) : ∃ tp : TpDev A, s.step lcd x = Adjust.tick { s with tp := tp } ∧
      tp.sta = 0 ∧ tp.toAdjData = s.tp.toAdjData := by
  have hscan : (tpScan true x s.tp).sta = 0 := by
    simp [tpScan, hpen, hsta, tpPresDown]
  refine ⟨tpScan true x s.tp, ?_, hscan, tpScan_toAdjData true x s.tp⟩
  rw [Adjust.step, if_neg]
  rw [hscan]
  decide

/-- Nothing is pressed: the calibration times out, with the factors it was entered with. -/
theorem Adjust.loop_idle (lcd : Lcd) {x : Sample} (hpen : x.pen = false) (n : ℕ) :
    ∀ {s : Adjust A}, s.tp.sta = 0 → s.outtime.toNat + n = 1000 →
      ∃ tp, s.loop lcd (List.replicate (n + 1) x) = .timedOut tp ∧ tp.toAdjData = s.tp.toAdjData := by
  induction n with
  | zero =>
    intro s hsta hout
    obtain ⟨tp, hstep, -, hadj⟩ := step_idle lcd hpen hsta
    have hlate : 1000 < s.outtime + 1 := by
      rw [UInt16.lt_iff_toNat_lt, UInt16.toNat_add, show s.outtime.toNat = 1000 from hout]; decide
    refine ⟨tp, ?_, hadj⟩
    rw [List.replicate_one, Adjust.loop, hstep, Adjust.tick, if_pos hlate]
  | succ n ih =>
    intro s hsta hout
    obtain ⟨tp, hstep, hsta', hadj⟩ := step_idle lcd hpen hsta
    have hnext : (s.outtime + 1).toNat = s.outtime.toNat + 1 := by
      rw [UInt16.toNat_add]
      exact Nat.mod_eq_of_lt (show s.outtime.toNat + 1 < 65536 by omega)
    have hearly : ¬ 1000 < s.outtime + 1 := by
      rw [UInt16.lt_iff_toNat_lt, hnext, show (1000 : UInt16).toNat = 1000 from rfl]; omega
    obtain ⟨tp', hloop, hadj'⟩ := ih (s := { s with tp := tp, outtime := s.outtime + 1 }) hsta'
      (show (s.outtime + 1).toNat + n = 1000 by omega)
    refine ⟨tp', ?_, hadj'.trans hadj⟩
    rw [List.replicate_succ, Adjust.loop, hstep, Adjust.tick, if_neg hearly]
    exact hloop

/-- **A panel that nobody touches**: at the first power-up the EEPROM gets a record with the
marker, and a factor zero is loaded. -/
theorem step_untouched (lcd : Lcd) {e : Eeprom} (he : e (saveAddrBase + 13) ≠ 0x0A) :
    ∃ s : TouchThread .ieee, step lcd (.powerUp penUp.dout (List.replicate 1001 penUp)) (start e) = some s ∧
      s.passed = [] ∧ s.eeprom (saveAddrBase + 13) = 0x0A ∧ s.tp.xfac.val = .num 0 := by
  have hnone : ∀ tp : TpDev .ieee, tpGetAdjdata e tp = none := fun tp => if_neg he
  obtain ⟨tp, hloop, hadj⟩ := Adjust.loop_idle lcd (x := penUp) rfl 1000
    (s := Adjust.start (firstReading penUp.dout : TpDev .ieee)) rfl rfl
  have hsave : adjustAndSave lcd (List.replicate 1001 penUp)
      { (start e : TouchThread .ieee) with tp := firstReading penUp.dout } =
        some { (start e : TouchThread .ieee) with eeprom := saved e tp.toAdjData, tp := tp } := by
    rw [adjustAndSave, hloop]
    simp only [start, hnone, Option.getD_none]
  have hmark := saved_marker e tp.toAdjData
  refine ⟨_, rfl, ?_⟩
  rw [tpInit, show tpGetAdjdata (start e).eeprom _ = none from hnone _, hsave]
  refine ⟨rfl, hmark, ?_⟩
  show ((tpGetAdjdata (saved e tp.toAdjData) tp).getD tp).xfac.val = .num 0
  rw [tpGetAdjdata_of_marker _ hmark, Option.getD_some, TpDev.selectAxes_toAdjData,
    readAdj_of_slice (slice_saved e tp.toAdjData), hadj]
  show (facOf (A := .ieee) (tempOf (.ofInt 0))).val = .num 0
  decide +kernel

/-- The first power-up of a panel that nobody touches. -/
theorem not_genuine : ¬ ∀ (lcd : Lcd) (e : Eeprom) (as : List Action) (s : TouchThread .ieee),
    e (saveAddrBase + 13) ≠ 0x0A → run (step lcd) as (start e) = some s → Genuine lcd s := by
  intro h
  have he : blank (saveAddrBase + 13) ≠ 0x0A := by decide
  obtain ⟨s, hs, hpassed, hmark, -⟩ := step_untouched portrait he
  obtain ⟨d, hd, -⟩ := (h portrait _ [.powerUp penUp.dout (List.replicate 1001 penUp)] s he
    (run_cons_some.2 ⟨s, hs, rfl⟩)).stored hmark
  rw [hpassed] at hd
  exact absurd hd List.not_mem_nil

end DataRecorder.Touch
