/-
  Drawing a line on the display (`LCD_DrawLine`).

  Both axes run an accumulator against the longer distance, and every pass draws
  the point reached so far.  The model logs the points given to `LCD_DrawPoint`.
  The C `int`s are integers: `axis_err_bounds` and `axis_between` bound what they hold.

  * `lcdDrawLine_eq`: the points drawn, in closed form, as long as the 16-bit
    counter can pass the distance;
  * `lcdDrawLine_exact`: between points with coordinates below 32768 the line
    ends, joins both ends exactly, has no gaps, and stays beside the segment.
-/
import DataRecorder.Base.Dda
import DataRecorder.Base.Loop
import Mathlib.Data.List.Range
import Mathlib.Data.Rat.Lemmas
import Mathlib.Algebra.Order.Field.Basic
import Mathlib.Tactic.FieldSimp
import Mathlib.Tactic.Linarith

namespace DataRecorder.Lcd

open Base

abbrev Pixel := UInt16 × UInt16

/-- The running state of one axis: `xerr` and `uRow`, or `yerr` and `uCol`. -/
structure Axis where
  err : ℤ
  pos : ℤ

/-- One pass on one axis. -/
def Axis.advance (distance delta inc : ℤ) (a : Axis) : Axis :=
  let err := a.err + delta
  if err > distance then ⟨err - distance, a.pos + inc⟩ else ⟨err, a.pos⟩

/-- `incx` and the absolute `delta_x`, or `incy` and the absolute `delta_y`. -/
def direction (delta : ℤ) : ℤ × ℤ :=
  if delta > 0 then (1, delta) else if delta = 0 then (0, delta) else (-1, -delta)

structure Line where
  t : UInt16
  row : Axis
  col : Axis
  drawn : List Pixel

def drawLineStep (x y : ℤ × ℤ) (distance : ℤ) (s : Line) : Pass Line (List Pixel) :=
  if s.t.toNat ≤ distance + 1 then
    .next { t := s.t + 1
            row := s.row.advance distance x.2 x.1
            col := s.col.advance distance y.2 y.1
            drawn := s.drawn ++ [(UInt16.ofInt s.row.pos, UInt16.ofInt s.col.pos)] }
  else .done s.drawn

/-- The points `LCD_DrawLine` draws, in order. -/
def lcdDrawLine (fuel : ℕ) (x1 y1 x2 y2 : UInt16) : Option (List Pixel) :=
  let x := direction (x2.toNat - x1.toNat)
  let y := direction (y2.toNat - y1.toNat)
  let distance := if x.2 > y.2 then x.2 else y.2
  loop (drawLineStep x y distance) fuel ⟨0, ⟨0, x1.toNat⟩, ⟨0, y1.toNat⟩, []⟩

/-! ## One axis -/

theorem direction_eq (d : ℤ) : direction d = (d.sign, (d.natAbs : ℤ)) := by
  unfold direction
  split_ifs with hpos hzero
  · rw [Int.sign_eq_one_of_pos hpos, Int.natAbs_of_nonneg hpos.le]
  · simp [hzero]
  · have hneg : d < 0 := by omega
    rw [Int.sign_eq_neg_one_of_neg hneg, Int.ofNat_natAbs_of_nonpos hneg.le]

/-- The axis of length `d` from `p`, after `k` passes. -/
def axis (D : ℕ) (p d : ℤ) (k : ℕ) : Axis :=
  ⟨Dda.residue D d.natAbs k, p + d.sign * Dda.moves D d.natAbs k⟩

variable {D : ℕ} {p d : ℤ} {k : ℕ}

theorem axis_zero : axis D p d 0 = ⟨0, p⟩ := by simp [axis]

theorem advance_moves {distance delta inc : ℤ} {a : Axis} (h : distance < a.err + delta) :
    a.advance distance delta inc = ⟨a.err + delta - distance, a.pos + inc⟩ := if_pos h

theorem advance_stays {distance delta inc : ℤ} {a : Axis} (h : ¬ distance < a.err + delta) :
    a.advance distance delta inc = ⟨a.err + delta, a.pos⟩ := if_neg h

theorem advance_axis (hd : d.natAbs ≤ D) :
    (axis D p d k).advance D d.natAbs d.sign = axis D p d (k + 1) := by
  have hmoves := Dda.moves_succ (k := k) hd
  have hresidue := Dda.residue_succ (k := k) hd
  by_cases hlt : D < Dda.residue D d.natAbs k + d.natAbs
  · have hgt : (D : ℤ) < (axis D p d k).err + d.natAbs := Int.ofNat_lt.2 hlt
    rw [if_pos hlt] at hmoves hresidue
    rw [advance_moves hgt, axis, axis, hmoves, hresidue, Nat.cast_sub hlt.le]
    push_cast
    rw [Int.mul_add, Int.mul_one, Int.add_assoc]
  · have hle : ¬ (D : ℤ) < (axis D p d k).err + d.natAbs := fun h => hlt (Int.ofNat_lt.1 h)
    rw [if_neg hlt] at hmoves hresidue
    rw [advance_stays hle, axis, axis, hmoves, hresidue, Nat.cast_add]

theorem axis_start : (axis D p d 0).pos = p := by simp [axis]

theorem axis_full (hd : d.natAbs ≤ D) : (axis D p d (D + 1)).pos = p + d := by
  rw [axis, Dda.moves_full hd, Int.sign_mul_natAbs]

/-- No pass goes beyond either end. -/
theorem axis_between (hd : d.natAbs ≤ D) (hk : k ≤ D + 1) :
    min p (p + d) ≤ (axis D p d k).pos ∧ (axis D p d k).pos ≤ max p (p + d) := by
  have hle : Dda.moves D d.natAbs k ≤ d.natAbs := Dda.moves_le hd hk
  rcases Int.lt_trichotomy d 0 with hneg | rfl | hpos
  · simp only [axis, Int.sign_eq_neg_one_of_neg hneg]
    omega
  · simp [axis]
  · simp only [axis, Int.sign_eq_one_of_pos hpos]
    omega

theorem abs_sign_le (d : ℤ) : |d.sign| ≤ 1 := by
  rcases Int.lt_trichotomy d 0 with hneg | rfl | hpos
  · rw [Int.sign_eq_neg_one_of_neg hneg]
    decide
  · decide
  · rw [Int.sign_eq_one_of_pos hpos]
    decide

/-- One pass moves an axis by at most one. -/
theorem axis_adjacent (hd : d.natAbs ≤ D) :
    |(axis D p d (k + 1)).pos - (axis D p d k).pos| ≤ 1 := by
  rw [← advance_axis hd]
  by_cases hlt : (D : ℤ) < (axis D p d k).err + d.natAbs
  · rw [advance_moves hlt, add_sub_cancel_left]
    exact abs_sign_le d
  · rw [advance_stays hlt, sub_self, abs_zero]
    exact Int.one_nonneg

theorem axis_err_bounds (hd : d.natAbs ≤ D) : 0 ≤ (axis D p d k).err ∧ (axis D p d k).err ≤ D := by
  have hle : Dda.residue D d.natAbs k ≤ D := Dda.residue_le hd
  exact ⟨Int.natCast_nonneg _, Int.ofNat_le.2 hle⟩

/-- `b` is less than one from the value at `a` of the segment from `(a₁, b₁)` to `(a₂, b₂)`. -/
def BesideSegment (a₁ b₁ a₂ b₂ a b : ℚ) : Prop := |b - (b₁ + (a - a₁) * (b₂ - b₁) / (a₂ - a₁))| < 1

theorem cast_sign_mul_natAbs (d : ℤ) : (d.sign : ℚ) * d.natAbs = d := by
  rw [← Int.cast_natCast, ← Int.cast_mul, Int.sign_mul_natAbs]

theorem axis_beside {q e : ℤ} (hd : d.natAbs = D) (he : e.natAbs ≤ D) :
    BesideSegment p q (p + d) (q + e) (axis D p d k).pos (axis D q e k).pos := by
  rcases Nat.eq_zero_or_pos D with rfl | hD
  · obtain rfl : e = 0 := by omega
    simp [BesideSegment, axis]
  have hDq : (0 : ℚ) < D := by exact_mod_cast hD
  have hsign : (d.sign : ℚ) ≠ 0 := by
    rw [Int.cast_ne_zero, ne_eq, Int.sign_eq_zero_iff_zero]
    omega
  have hdlen : (d : ℚ) = d.sign * D := by rw [← hd, cast_sign_mul_natAbs]
  have helen : (e : ℚ) = e.sign * e.natAbs := (cast_sign_mul_natAbs e).symm
  have hnear : |(D * Dda.moves D e.natAbs k : ℚ) - Dda.moves D D k * e.natAbs| < D := by
    exact_mod_cast Dda.moves_near (k := k) hD he
  have habs : |(e.sign : ℚ)| ≤ 1 := by exact_mod_cast abs_sign_le e
  have hdiff : ((axis D q e k).pos : ℚ) -
      (q + ((axis D p d k).pos - p) * (q + e - q) / (p + d - p)) =
      e.sign * (((D * Dda.moves D e.natAbs k : ℚ) - Dda.moves D D k * e.natAbs) / D) := by
    simp only [axis, hd, Int.cast_add, Int.cast_mul, Int.cast_natCast, add_sub_cancel_left]
    rw [hdlen, helen]
    field_simp
    ring
  rw [BesideSegment, hdiff, abs_mul, abs_div, abs_of_pos hDq]
  calc |(e.sign : ℚ)| * (|(D * Dda.moves D e.natAbs k : ℚ) - Dda.moves D D k * e.natAbs| / D)
      ≤ 1 * (|(D * Dda.moves D e.natAbs k : ℚ) - Dda.moves D D k * e.natAbs| / D) :=
        mul_le_mul_of_nonneg_right habs (by positivity)
    _ < 1 := by rwa [one_mul, div_lt_one hDq]

/-! ## The points drawn -/

section
variable (x1 y1 x2 y2 : UInt16)

def deltaX : ℤ := x2.toNat - x1.toNat

def deltaY : ℤ := y2.toNat - y1.toNat

def distance : ℕ := max (deltaX x1 x2).natAbs (deltaY y1 y2).natAbs

def row (k : ℕ) : Axis := axis (distance x1 y1 x2 y2) x1.toNat (deltaX x1 x2) k

def col (k : ℕ) : Axis := axis (distance x1 y1 x2 y2) y1.toNat (deltaY y1 y2) k

/-- The point drawn in pass `k`. -/
def pixel (k : ℕ) : Pixel :=
  (UInt16.ofInt (row x1 y1 x2 y2 k).pos, UInt16.ofInt (col x1 y1 x2 y2 k).pos)

/-- The state before pass `k`. -/
def lineState (k : ℕ) : Line :=
  ⟨UInt16.ofNat k, row x1 y1 x2 y2 k, col x1 y1 x2 y2 k, (List.range k).map (pixel x1 y1 x2 y2)⟩

/-- The points of the whole line. -/
def pixels : List Pixel := (List.range (distance x1 y1 x2 y2 + 2)).map (pixel x1 y1 x2 y2)

end

variable {x1 y1 x2 y2 : UInt16}

theorem deltaX_le : (deltaX x1 x2).natAbs ≤ distance x1 y1 x2 y2 := Nat.le_max_left _ _

theorem deltaY_le : (deltaY y1 y2).natAbs ≤ distance x1 y1 x2 y2 := Nat.le_max_right _ _

theorem distance_eq (x1 y1 x2 y2 : UInt16) :
    (if (direction (deltaX x1 x2)).2 > (direction (deltaY y1 y2)).2
      then (direction (deltaX x1 x2)).2 else (direction (deltaY y1 y2)).2) =
    (distance x1 y1 x2 y2 : ℤ) := by
  simp only [direction_eq, distance]
  split <;> omega

theorem lcdDrawLine_loop (fuel : ℕ) (x1 y1 x2 y2 : UInt16) : lcdDrawLine fuel x1 y1 x2 y2 =
    loop (drawLineStep (direction (deltaX x1 x2)) (direction (deltaY y1 y2)) (distance x1 y1 x2 y2))
      fuel (lineState x1 y1 x2 y2 0) := by
  rw [← distance_eq, lineState, row, col, axis_zero, axis_zero]
  rfl

theorem toNat_pass (hk : k < 65536) : (UInt16.ofNat k).toNat = k := by
  simpa using Nat.mod_eq_of_lt hk

/-- One pass draws the next point. -/
theorem drawLineStep_next (hk : k ≤ distance x1 y1 x2 y2 + 1) (hfit : k < 65536) :
    drawLineStep (direction (deltaX x1 x2)) (direction (deltaY y1 y2)) (distance x1 y1 x2 y2)
      (lineState x1 y1 x2 y2 k) = .next (lineState x1 y1 x2 y2 (k + 1)) := by
  have ht : ((lineState x1 y1 x2 y2 k).t.toNat : ℤ) ≤ distance x1 y1 x2 y2 + 1 := by
    rw [lineState, toNat_pass hfit]
    omega
  rw [drawLineStep, if_pos ht, direction_eq, direction_eq]
  simp only [lineState, row, col, advance_axis deltaX_le, advance_axis deltaY_le,
    List.range_succ, List.map_append, List.map_singleton, UInt16.ofNat_add]
  rfl

theorem drawLineStep_done (hfit : distance x1 y1 x2 y2 + 2 < 65536) :
    drawLineStep (direction (deltaX x1 x2)) (direction (deltaY y1 y2)) (distance x1 y1 x2 y2)
      (lineState x1 y1 x2 y2 (distance x1 y1 x2 y2 + 2)) = .done (pixels x1 y1 x2 y2) := by
  refine if_neg ?_
  rw [lineState, toNat_pass hfit]
  omega

/-- **The whole line**, unless the distance is one the counter cannot pass. -/
theorem lcdDrawLine_eq (hfit : distance x1 y1 x2 y2 + 2 < 65536) {fuel : ℕ}
    (hfuel : distance x1 y1 x2 y2 + 2 < fuel) :
    lcdDrawLine fuel x1 y1 x2 y2 = some (pixels x1 y1 x2 y2) := by
  rw [lcdDrawLine_loop]
  exact loop_states (S := lineState x1 y1 x2 y2)
    (fun k hk => drawLineStep_next (by omega) (by omega)) (drawLineStep_done hfit) hfuel

/-- The line ends if and only if the counter can pass the distance. -/
theorem lcdDrawLine_isSome_iff :
    (∃ fuel, (lcdDrawLine fuel x1 y1 x2 y2).isSome) ↔ distance x1 y1 x2 y2 + 2 < 65536 := by
  constructor
  · rintro ⟨fuel, hsome⟩
    by_contra hfit
    -- the counter wraps before it is beyond the distance
    have hnext (s : Line) : (s.t.toNat : ℤ) ≤ distance x1 y1 x2 y2 + 1 := by
      have ht := s.t.toNat_lt
      omega
    have hforever : lcdDrawLine fuel x1 y1 x2 y2 = none := by
      rw [lcdDrawLine_loop]
      exact loop_forever (fun s => ⟨_, if_pos (hnext s)⟩) fuel _
    rw [hforever] at hsome
    exact Bool.false_ne_true hsome
  · intro hfit
    exact ⟨_, by rw [lcdDrawLine_eq hfit (Nat.lt_succ_self _)]; rfl⟩

/-! ## The line drawn -/

/-- Both coordinates of two points differ by at most one. -/
def Adjacent (p q : Pixel) : Prop :=
  |(q.1.toNat : ℤ) - p.1.toNat| ≤ 1 ∧ |(q.2.toNat : ℤ) - p.2.toNat| ≤ 1

/-- The point is in the bounding box of the ends. -/
def InBox (x1 y1 x2 y2 : UInt16) (p : Pixel) : Prop :=
  (min x1.toNat x2.toNat ≤ p.1.toNat ∧ p.1.toNat ≤ max x1.toNat x2.toNat) ∧
    min y1.toNat y2.toNat ≤ p.2.toNat ∧ p.2.toNat ≤ max y1.toNat y2.toNat

/-- The point is beside the segment, on the minor axis. -/
def Beside (x1 y1 x2 y2 : UInt16) (p : Pixel) : Prop :=
  ((deltaY y1 y2).natAbs ≤ (deltaX x1 x2).natAbs →
      BesideSegment x1.toNat y1.toNat x2.toNat y2.toNat p.1.toNat p.2.toNat) ∧
    ((deltaX x1 x2).natAbs ≤ (deltaY y1 y2).natAbs →
      BesideSegment y1.toNat x1.toNat y2.toNat x2.toNat p.2.toNat p.1.toNat)

structure ExactLine (x1 y1 x2 y2 : UInt16) (ps : List Pixel) : Prop where
  first : ps.head? = some (x1, y1)
  last : ps.getLast? = some (x2, y2)
  adjacent : ps.IsChain Adjacent
  inBox : ∀ p ∈ ps, InBox x1 y1 x2 y2 p
  beside : ∀ p ∈ ps, Beside x1 y1 x2 y2 p

theorem toNat_ofInt {z : ℤ} (h₀ : 0 ≤ z) (h : z < 65536) : ((UInt16.ofInt z).toNat : ℤ) = z := by
  have hmod : z % 2 ^ 16 = z := Int.emod_eq_of_lt h₀ h
  rw [UInt16.ofInt, hmod, toNat_pass (by omega)]
  omega

theorem ofInt_toNat (x : UInt16) : UInt16.ofInt x.toNat = x := by
  have hx := x.toNat_lt
  have h := toNat_ofInt (z := x.toNat) (by omega) (by omega)
  exact UInt16.toNat_inj.1 (Int.ofNat_inj.1 h)

/-- A coordinate on the way fits into the 16 bits of a point. -/
theorem toNat_axis_pos {a b : UInt16} (hd : ((b.toNat : ℤ) - a.toNat).natAbs ≤ D) (hk : k ≤ D + 1) :
    ((UInt16.ofInt (axis D a.toNat (b.toNat - a.toNat) k).pos).toNat : ℤ) =
      (axis D a.toNat (b.toNat - a.toNat) k).pos := by
  have hbetween := axis_between (p := a.toNat) hd hk
  have ha := a.toNat_lt
  have hb := b.toNat_lt
  exact toNat_ofInt (by omega) (by omega)

theorem pixel_row (hk : k ≤ distance x1 y1 x2 y2 + 1) :
    ((pixel x1 y1 x2 y2 k).1.toNat : ℤ) = (row x1 y1 x2 y2 k).pos := toNat_axis_pos deltaX_le hk

theorem pixel_col (hk : k ≤ distance x1 y1 x2 y2 + 1) :
    ((pixel x1 y1 x2 y2 k).2.toNat : ℤ) = (col x1 y1 x2 y2 k).pos := toNat_axis_pos deltaY_le hk

theorem pixel_first : pixel x1 y1 x2 y2 0 = (x1, y1) := by
  rw [pixel, row, col, axis_start, axis_start, ofInt_toNat, ofInt_toNat]

theorem pixel_last : pixel x1 y1 x2 y2 (distance x1 y1 x2 y2 + 1) = (x2, y2) := by
  rw [pixel, row, col, axis_full deltaX_le, axis_full deltaY_le, deltaX, deltaY, add_sub_cancel,
    add_sub_cancel, ofInt_toNat, ofInt_toNat]

theorem pixel_adjacent (hk : k ≤ distance x1 y1 x2 y2) :
    Adjacent (pixel x1 y1 x2 y2 k) (pixel x1 y1 x2 y2 (k + 1)) := by
  have hk' : k + 1 ≤ distance x1 y1 x2 y2 + 1 := Nat.succ_le_succ hk
  rw [Adjacent, pixel_row hk', pixel_row (Nat.le_of_succ_le hk'), pixel_col hk',
    pixel_col (Nat.le_of_succ_le hk')]
  exact ⟨axis_adjacent deltaX_le, axis_adjacent deltaY_le⟩

theorem row_between (hk : k ≤ distance x1 y1 x2 y2 + 1) :
    min (x1.toNat : ℤ) x2.toNat ≤ (row x1 y1 x2 y2 k).pos ∧
      (row x1 y1 x2 y2 k).pos ≤ max (x1.toNat : ℤ) x2.toNat := by
  have hd : (deltaX x1 x2).natAbs ≤ distance x1 y1 x2 y2 := deltaX_le
  have hbetween := axis_between (p := x1.toNat) hd hk
  rwa [deltaX, add_sub_cancel] at hbetween

theorem col_between (hk : k ≤ distance x1 y1 x2 y2 + 1) :
    min (y1.toNat : ℤ) y2.toNat ≤ (col x1 y1 x2 y2 k).pos ∧
      (col x1 y1 x2 y2 k).pos ≤ max (y1.toNat : ℤ) y2.toNat := by
  have hd : (deltaY y1 y2).natAbs ≤ distance x1 y1 x2 y2 := deltaY_le
  have hbetween := axis_between (p := y1.toNat) hd hk
  rwa [deltaY, add_sub_cancel] at hbetween

theorem pixel_inBox (hk : k ≤ distance x1 y1 x2 y2 + 1) :
    InBox x1 y1 x2 y2 (pixel x1 y1 x2 y2 k) := by
  have hrow := pixel_row hk
  have hcol := pixel_col hk
  have hx := row_between hk
  have hy := col_between hk
  unfold InBox
  omega

theorem pixel_beside (hk : k ≤ distance x1 y1 x2 y2 + 1) :
    Beside x1 y1 x2 y2 (pixel x1 y1 x2 y2 k) := by
  have hrow : ((pixel x1 y1 x2 y2 k).1.toNat : ℚ) = (row x1 y1 x2 y2 k).pos := by
    exact_mod_cast pixel_row hk
  have hcol : ((pixel x1 y1 x2 y2 k).2.toNat : ℚ) = (col x1 y1 x2 y2 k).pos := by
    exact_mod_cast pixel_col hk
  rw [Beside, hrow, hcol]
  constructor
  · intro hle
    have hdist : (deltaX x1 x2).natAbs = distance x1 y1 x2 y2 := (Nat.max_eq_left hle).symm
    have hbeside := axis_beside (p := x1.toNat) (q := y1.toNat) (k := k) hdist deltaY_le
    simpa [row, col, deltaX, deltaY] using hbeside
  · intro hle
    have hdist : (deltaY y1 y2).natAbs = distance x1 y1 x2 y2 := (Nat.max_eq_right hle).symm
    have hbeside := axis_beside (p := y1.toNat) (q := x1.toNat) (k := k) hdist deltaX_le
    simpa [row, col, deltaX, deltaY] using hbeside

theorem exactLine_pixels : ExactLine x1 y1 x2 y2 (pixels x1 y1 x2 y2) where
  first := by simp [pixels, List.head?_range, pixel_first]
  last := by simp [pixels, List.getLast?_range, pixel_last]
  adjacent := by
    rw [pixels, List.isChain_map, List.isChain_range_succ]
    exact fun k hk => pixel_adjacent (by omega)
  inBox := by
    simp only [pixels, List.mem_map, List.mem_range]
    rintro _ ⟨k, hk, rfl⟩
    exact pixel_inBox (by omega)
  beside := by
    simp only [pixels, List.mem_map, List.mem_range]
    rintro _ ⟨k, hk, rfl⟩
    exact pixel_beside (by omega)

/-- **Line drawing is exact**: with coordinates below 32768 the line ends within 32770 passes. -/
theorem lcdDrawLine_exact (x1 y1 x2 y2 : UInt16) (hx1 : x1.toNat < 32768) (hy1 : y1.toNat < 32768)
    (hx2 : x2.toNat < 32768) (hy2 : y2.toNat < 32768) :
    ∃ ps, (∀ fuel ≥ 32770, lcdDrawLine fuel x1 y1 x2 y2 = some ps) ∧ ExactLine x1 y1 x2 y2 ps := by
  have hdist : distance x1 y1 x2 y2 < 32768 := by
    simp only [distance, deltaX, deltaY]
    omega
  exact ⟨pixels x1 y1 x2 y2, fun fuel hfuel => lcdDrawLine_eq (by omega) (by omega),
    exactLine_pixels⟩

theorem lcdDrawLine_exact_steep : (∀ fuel ≥ 32770, (lcdDrawLine fuel 5 9 3 2).isSome) ∧
    ∃ ps, lcdDrawLine 32770 5 9 3 2 = some ps ∧ ExactLine 5 9 3 2 ps := by
  obtain ⟨ps, hps, hexact⟩ := lcdDrawLine_exact 5 9 3 2 (by decide) (by decide) (by decide) (by decide)
  exact ⟨fun fuel hfuel => by rw [hps fuel hfuel]; rfl, ps, hps 32770 (by decide), hexact⟩

example : lcdDrawLine 10 5 9 3 2 = some
    [(5, 9), (5, 9), (5, 8), (5, 7), (4, 6), (4, 5), (4, 4), (4, 3), (3, 2)] := by decide

end DataRecorder.Lcd
