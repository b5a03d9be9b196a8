/-
  Runs of `TP_Scan` (`HARDWARE/TOUCH/touch.c`).

  A scan of a pressed pen sets the flag `TP_PRES_DOWN` also when its reading is
  rejected.  The coordinates are then those that were there before.

  * `real_iff`: the coordinates are those of a reading of the current press along
    the whole run, if and only if every press begins with a reading that is
    accepted.
-/
import DataRecorder.Touch.Boot
import DataRecorder.Touch.Filter

namespace DataRecorder.Touch

open Base

variable {A : Arithmetic}

/-! ## One scan -/

/-- The coordinates that a scan makes of a reading. -/
def pointOf (raw : Bool) (tp : AdjData A) (p : Point) : Point :=
  if raw then p else (toScreen tp.xfac tp.xoff p.1, toScreen tp.yfac tp.yoff p.2)

def TpDev.point (tp : TpDev A) : Point := (tp.x0, tp.y0)

def TpDev.Pressed (tp : TpDev A) : Prop := tp.sta &&& tpPresDown ≠ 0

instance (tp : TpDev A) : Decidable tp.Pressed := inferInstanceAs (Decidable (_ ≠ _))

theorem readPoint_eq (raw : Bool) (dout : UInt8 → ℕ → UInt16) (tp : TpDev A) :
    readPoint raw dout tp = match tpReadXY2 tp dout with
      | none => tp
      | some p => { tp with
          x0 := (pointOf raw tp.toAdjData p).1, y0 := (pointOf raw tp.toAdjData p).2 } := by
  unfold readPoint
  rcases tpReadXY2 tp dout with _ | p
  · rfl
  · cases raw <;> rfl

section
variable (raw : Bool) (s : Sample) (tp : TpDev A)

/-- What a scan does to the coordinates. -/
theorem tpScan_point : (tpScan raw s tp).point =
    if s.pen then ((tpReadXY2 tp s.dout).map (pointOf raw tp.toAdjData)).getD tp.point
    else if tp.Pressed then tp.point else (0xffff, 0xffff) := by
  by_cases hpen : s.pen
  · have hread : (readPoint raw s.dout tp).point =
        ((tpReadXY2 tp s.dout).map (pointOf raw tp.toAdjData)).getD tp.point := by
      rw [readPoint_eq]
      rcases tpReadXY2 tp s.dout with _ | p <;> rfl
    rw [if_pos hpen, ← hread, tpScan, if_pos hpen]
    dsimp only
    split_ifs <;> rfl
  · rw [if_neg hpen, tpScan, if_neg hpen]
    by_cases hsta : tp.sta &&& tpPresDown ≠ 0
    · rw [if_pos hsta, if_pos (show tp.Pressed from hsta)]
      rfl
    · rw [if_neg hsta, if_neg (show ¬ tp.Pressed from hsta)]
      rfl

/-- The flag tells whether the pen was down, whatever the reading. -/
theorem tpScan_pressed : (tpScan raw s tp).Pressed ↔ s.pen := by
  by_cases hpen : s.pen
  · rw [tpScan, if_pos hpen]
    dsimp only
    refine iff_of_true ?_ hpen
    split_ifs with hsta
    · show (tpPresDown ||| tpCathPres) &&& tpPresDown ≠ 0
      decide
    · exact hsta
  · rw [tpScan, if_neg hpen]
    refine iff_of_false ?_ hpen
    by_cases hsta : tp.sta &&& tpPresDown ≠ 0
    · rw [if_pos hsta]
      show ¬ (tp.sta &&& ~~~tpPresDown) &&& tpPresDown ≠ 0
      rw [UInt8.and_assoc, not_not]
      simp [tpPresDown]
    · rw [if_neg hsta]
      exact hsta

end

/-- A reading depends on the commands only, which no scan changes. -/
theorem tpReadXY2_tpScan (raw : Bool) (s : Sample) (tp : TpDev A) :
    tpReadXY2 (tpScan raw s tp) = tpReadXY2 tp := by
  have hcmd : (tpScan raw s tp).cmdRdx = tp.cmdRdx ∧ (tpScan raw s tp).cmdRdy = tp.cmdRdy := by
    have hread : (readPoint raw s.dout tp).cmdRdx = tp.cmdRdx ∧
        (readPoint raw s.dout tp).cmdRdy = tp.cmdRdy := by
      rw [readPoint_eq]
      rcases tpReadXY2 tp s.dout with _ | p <;> exact ⟨rfl, rfl⟩
    by_cases hpen : s.pen
    · simp only [tpScan, if_pos hpen]
      split_ifs <;> exact hread
    · simp only [tpScan, if_neg hpen]
      split_ifs <;> exact ⟨rfl, rfl⟩
  have hread : tpReadXY (tpScan raw s tp) = tpReadXY tp := by
    funext dout n
    rw [tpReadXY, tpReadXY, hcmd.1, hcmd.2]
  funext dout
  rw [tpReadXY2, tpReadXY2, hread]

/-! ## The converter has twelve bits -/

theorem tpReadXY2_lt {tp : TpDev A} {dout : UInt8 → ℕ → UInt16} {p : Point}
    (h : tpReadXY2 tp dout = some p) : p.1.toNat < 4096 ∧ p.2.toNat < 4096 := by
  unfold tpReadXY2 at h
  dsimp only at h
  split_ifs at h
  obtain rfl := Option.some.inj h
  have hmean : ∀ a b : ℕ, a < 4096 → b < 4096 → (UInt16.ofNat ((a + b) / 2)).toNat < 4096 := by
    intro a b ha hb
    rw [UInt16.toNat_ofNat']
    omega
  exact ⟨hmean _ _ (tpReadXOY_lt _ _ _) (tpReadXOY_lt _ _ _),
    hmean _ _ (tpReadXOY_lt _ _ _) (tpReadXOY_lt _ _ _)⟩

/-! ## Runs of scans -/

def scans (raw : Bool) (tp : TpDev A) (xs : List Sample) : TpDev A :=
  xs.foldl (fun tp s => tpScan raw s tp) tp

/-- If the flag is set after the scans `xs`, the coordinates are those of a reading of the current
press, the last that was accepted. -/
def Real (raw : Bool) (tp : TpDev A) (xs : List Sample) : Prop :=
  (scans raw tp xs).Pressed → ∃ before s after p, xs = before ++ s :: after ∧
    (∀ s' ∈ s :: after, s'.pen) ∧ tpReadXY2 tp s.dout = some p ∧
    (∀ s' ∈ after, tpReadXY2 tp s'.dout = none) ∧
    (scans raw tp xs).point = pointOf raw tp.toAdjData p ∧ p.1.toNat < 4096 ∧ p.2.toNat < 4096

/-- The pen was down at the last scan. -/
def PenDown (xs : List Sample) : Prop := ∃ s ∈ xs.getLast?, s.pen

/-- Every press begins with a reading that is accepted. -/
def FirstAccepted (tp : TpDev A) (xs : List Sample) : Prop :=
  ∀ ys s, ys ++ [s] <+: xs → s.pen → ¬ PenDown ys → (tpReadXY2 tp s.dout).isSome

section
variable {raw : Bool} {tp : TpDev A}

theorem scans_concat (xs : List Sample) (s : Sample) :
    scans raw tp (xs ++ [s]) = tpScan raw s (scans raw tp xs) := by
  rw [scans, List.foldl_append]
  rfl

theorem penDown_concat {xs : List Sample} {s : Sample} : PenDown (xs ++ [s]) ↔ s.pen := by
  simp [PenDown]

/-- The calibration and the commands stay. -/
theorem scans_frame (xs : List Sample) : (scans raw tp xs).toAdjData = tp.toAdjData ∧
    tpReadXY2 (scans raw tp xs) = tpReadXY2 tp := by
  induction xs using List.reverseRecOn with
  | nil => exact ⟨rfl, rfl⟩
  | append_singleton xs s ih =>
    rw [scans_concat, tpScan_toAdjData, tpReadXY2_tpScan]
    exact ih

theorem scans_pressed (htp : tp.sta = 0) (xs : List Sample) : (scans raw tp xs).Pressed ↔ PenDown xs := by
  rcases List.eq_nil_or_concat' xs with rfl | ⟨xs, s, rfl⟩
  · simp [scans, TpDev.Pressed, PenDown, htp]
  · rw [scans_concat, tpScan_pressed, penDown_concat]

/-- A scan that begins a press has no other reading to show than its own. -/
theorem Real.accepted (htp : tp.sta = 0) {xs : List Sample} {s : Sample} (h : Real raw tp (xs ++ [s]))
    (hpen : s.pen) (hup : ¬ PenDown xs) : (tpReadXY2 tp s.dout).isSome := by
  obtain ⟨before, s', after, p, hxs, hdown, hp, -⟩ := h (by rwa [scans_pressed htp, penDown_concat])
  rcases List.eq_nil_or_concat' after with rfl | ⟨after, t, rfl⟩
  · obtain ⟨-, heq⟩ := List.append_inj' hxs rfl
    rw [List.singleton_inj.1 heq, hp]
    rfl
  · -- the reading was made before, while the pen was already down
    have hxs' : xs ++ [s] = (before ++ s' :: after) ++ [t] := by rw [hxs, List.append_assoc, List.cons_append]
    obtain ⟨rfl, -⟩ := List.append_inj' hxs' rfl
    refine absurd ⟨(s' :: after).getLast (by simp), ?_, ?_⟩ hup
    · rw [List.getLast?_append, List.getLast?_eq_some_getLast (by simp), Option.some_or, Option.mem_some_iff]
    · refine hdown _ (List.mem_cons.2 ?_)
      rcases List.mem_cons.1 (List.getLast_mem (show s' :: after ≠ [] by simp)) with h | h
      · exact .inl h
      · exact .inr (List.mem_append_left _ h)

theorem Real.concat (htp : tp.sta = 0) {xs : List Sample} {s : Sample} (h : Real raw tp xs)
    (hfirst : s.pen → ¬ PenDown xs → (tpReadXY2 tp s.dout).isSome) : Real raw tp (xs ++ [s]) := by
  intro hpress
  obtain ⟨hadj, hread⟩ : (scans raw tp xs).toAdjData = tp.toAdjData ∧
      tpReadXY2 (scans raw tp xs) = tpReadXY2 tp := scans_frame xs
  have hpen : s.pen := by rwa [scans_pressed htp, penDown_concat] at hpress
  have hpoint := tpScan_point raw s (scans raw tp xs)
  rw [if_pos hpen, hread, hadj, ← scans_concat] at hpoint
  rcases hp : tpReadXY2 tp s.dout with _ | p
  · have hdown : PenDown xs := by
      by_contra hup
      simpa [hp] using hfirst hpen hup
    obtain ⟨before, s', after, p, rfl, hall, hp', hafter, hq, hlt⟩ := h ((scans_pressed htp xs).2 hdown)
    rw [hp, Option.map_none, Option.getD_none] at hpoint
    refine ⟨before, s', after ++ [s], p, by simp, ?_, hp', ?_, hpoint.trans hq, hlt⟩
    · intro t ht
      rcases List.mem_append.1 (show t ∈ (s' :: after) ++ [s] from ht) with ht | ht
      · exact hall t ht
      · rwa [List.mem_singleton.1 ht]
    · intro t ht
      rcases List.mem_append.1 ht with ht | ht
      · exact hafter t ht
      · rw [List.mem_singleton.1 ht]
        exact hp
  · rw [hp, Option.map_some, Option.getD_some] at hpoint
    exact ⟨xs, s, [], p, rfl, by simpa using hpen, hp, by simp, hpoint, tpReadXY2_lt hp⟩

/-- **The coordinates are those of the current press along the whole run**, if and only if every
press begins with a reading that is accepted. -/
theorem real_iff (htp : tp.sta = 0) (xs : List Sample) :
    (∀ ys, ys <+: xs → Real raw tp ys) ↔ FirstAccepted tp xs := by
  induction xs using List.reverseRecOn with
  | nil =>
    refine iff_of_true (fun ys hys => ?_) (fun ys s h => by simp at h)
    obtain rfl := List.prefix_nil.1 hys
    intro hpress
    rw [scans_pressed htp] at hpress
    simp [PenDown] at hpress
  | append_singleton xs s ih =>
    have hsplit : (∀ ys, ys <+: xs ++ [s] → Real raw tp ys) ↔
        (∀ ys, ys <+: xs → Real raw tp ys) ∧ Real raw tp (xs ++ [s]) := by
      simp only [List.prefix_concat_iff]
      exact ⟨fun h => ⟨fun ys hys => h ys (.inr hys), h _ (.inl rfl)⟩,
        fun h ys hys => hys.elim (fun h' => h' ▸ h.2) (h.1 ys)⟩
    have hfirst : FirstAccepted tp (xs ++ [s]) ↔
        FirstAccepted tp xs ∧ (s.pen → ¬ PenDown xs → (tpReadXY2 tp s.dout).isSome) := by
      simp only [FirstAccepted, List.prefix_concat_iff]
      constructor
      · exact fun h => ⟨fun ys t hys => h ys t (.inr hys), h xs s (.inl rfl)⟩
      · rintro ⟨hxs, hs⟩ ys t (heq | hys)
        · obtain ⟨hys, ht⟩ := List.append_inj' heq rfl
          rw [hys, List.singleton_inj.1 ht]
          exact hs
        · exact hxs ys t hys
    rw [hsplit, hfirst, ih]
    refine and_congr_right fun h => ⟨fun hreal => hreal.accepted htp, fun hs => ?_⟩
    exact ((ih.2 h) xs (List.prefix_refl xs)).concat htp hs

end

/-- The pen is put down on a point. -/
theorem real_penAt : FirstAccepted (.reset : TpDev .ieee) [penUp, penAt 100 380] ∧
    Real false (.reset : TpDev .ieee) [penUp, penAt 100 380] := by
  have hfirst : FirstAccepted (.reset : TpDev .ieee) [penUp, penAt 100 380] := by
    intro ys s hys hpen _
    have hmem : s ∈ [penUp, penAt 100 380] := hys.subset (by simp)
    rcases List.mem_cons.1 hmem with rfl | hmem
    · cases hpen
    · rw [List.mem_singleton.1 hmem]
      decide +kernel
  exact ⟨hfirst, (real_iff rfl _).2 hfirst _ (List.prefix_refl _)⟩

/-! ## A press that begins with noise -/

/-- The readings of the x axis are 1000 apart. -/
def noisy : Sample := ⟨true, fun _ n => if n < 2 * readTimes then 0x1000 else 0x5000⟩

/-- The released pen leaves the mark `0xffff`, which the noisy press then reports. -/
theorem not_real : ¬ ∀ (raw : Bool) (tp : TpDev .ieee) (xs : List Sample), tp.sta = 0 → Real raw tp xs := by
  intro h
  have hnone : tpReadXY2 (.reset : TpDev .ieee) noisy.dout = none := by decide +kernel
  have hsome := (h false .reset ([penUp] ++ [noisy]) rfl).accepted rfl rfl (by simp [PenDown, penUp])
  rw [hnone] at hsome
  cases hsome

end DataRecorder.Touch
