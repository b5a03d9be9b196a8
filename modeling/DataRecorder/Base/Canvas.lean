/-
  Pictures, brushes and rasters.

  A picture gives every place its colour.  A brush says what a drawing makes of
  the colour at each place; it may look at the old colour or hide it.  A raster
  counter runs through a window of `w` columns and `h` rows, row by row.

  * `draw_comp`: one drawing after another;
  * `advance_nth`: the counter is at column `k % w` of row `k / w` after `k` steps;
  * `store_hit`, `store_miss`: what a list leaves where it is stored along a
    raster, and what it leaves alone.
-/
import Mathlib.Data.List.Basic
import Mathlib.Tactic.Common

namespace Base

variable {κ α : Type*}

/-- What a drawing makes of the colour at each place. -/
abbrev Brush (κ α : Type*) := κ → α → α

namespace Brush

def draw (b : Brush κ α) (P : κ → α) : κ → α := fun p => b p (P p)

/-- `b` after `b'`. -/
def comp (b b' : Brush κ α) : Brush κ α := fun p a => b p (b' p a)

/-- The places of `s` get the colours `f`, the others keep theirs. -/
def fill (s : κ → Prop) [DecidablePred s] (f : κ → α) : Brush κ α := fun p a => if s p then f p else a

@[simp] theorem draw_apply (b : Brush κ α) (P : κ → α) (p : κ) : b.draw P p = b p (P p) := rfl

theorem draw_comp (b b' : Brush κ α) (P : κ → α) : (b.comp b').draw P = b.draw (b'.draw P) := rfl

end Brush

/-! ## Rasters -/

/-- The place behind `p` in a window of `w` columns and `h` rows; the first one is behind the last. -/
def advance (w h : ℕ) (p : ℕ × ℕ) : ℕ × ℕ :=
  if p.1 + 1 < w then (p.1 + 1, p.2) else (0, if p.2 + 1 < h then p.2 + 1 else 0)

/-- Place `k` of a window of `w` columns. -/
def nth (w k : ℕ) : ℕ × ℕ := (k % w, k / w)

/-- The list stored at the places from `p` on. -/
def store [DecidableEq κ] (w h : ℕ) (place : ℕ × ℕ → κ) : List α → ℕ × ℕ → (κ → α) → κ → α
  | [], _, m => m
  | a :: l, p, m => store w h place l (advance w h p) (Function.update m (place p) a)

variable {w h k : ℕ}

theorem nth_injective {k j : ℕ} (hkj : nth w k = nth w j) : k = j := by
  obtain ⟨hmod, hdiv⟩ := Prod.ext_iff.1 hkj
  have hmod : k % w = j % w := hmod
  have hdiv : k / w = j / w := hdiv
  rw [← Nat.div_add_mod k w, ← Nat.div_add_mod j w, hmod, hdiv]

theorem nth_of_lt {i j : ℕ} (hi : i < w) : nth w (j * w + i) = (i, j) := by
  have hw : 0 < w := by omega
  rw [nth, Nat.add_comm, Nat.add_mul_mod_self_right, Nat.mod_eq_of_lt hi, Nat.add_mul_div_right _ _ hw,
    Nat.div_eq_of_lt hi, Nat.zero_add]

/-- **The raster counter**, as long as it stays inside the window. -/
theorem advance_nth (hk : k + 1 < w * h) : advance w h (nth w k) = nth w (k + 1) := by
  have hw : 0 < w := Nat.pos_of_ne_zero fun hw => by simp [hw] at hk
  have hsplit := Nat.div_add_mod k w
  have hlt := Nat.mod_lt k hw
  rcases Nat.lt_or_ge (k % w + 1) w with hcol | hcol
  · have hplace : k + 1 = k / w * w + (k % w + 1) := by rw [Nat.mul_comm]; omega
    rw [advance, if_pos (show (nth w k).1 + 1 < w from hcol), hplace, nth_of_lt hcol]
    rfl
  · have hplace : k + 1 = (k / w + 1) * w + 0 := by rw [Nat.add_mul, Nat.mul_comm (k / w)]; omega
    have hrow : k / w + 1 < h := by
      refine Nat.lt_of_mul_lt_mul_left (a := w) ?_
      rw [Nat.mul_comm w (k / w + 1)]
      omega
    rw [advance, if_neg (show ¬ (nth w k).1 + 1 < w from Nat.not_lt.2 hcol),
      if_pos (show (nth w k).2 + 1 < h from hrow), hplace, nth_of_lt hw]
    rfl

section
variable [DecidableEq κ] {place : ℕ × ℕ → κ} {m : κ → α}

theorem store_miss {l : List α} {k : ℕ} {c : κ} (hl : k + l.length ≤ w * h)
    (hc : ∀ i < l.length, c ≠ place (nth w (k + i))) : store w h place l (nth w k) m c = m c := by
  induction l generalizing k m with
  | nil => rfl
  | cons a l ih =>
    have hfirst : Function.update m (place (nth w k)) a c = m c := Function.update_of_ne (hc 0 (by simp)) _ _
    cases l with
    | nil => exact hfirst
    | cons b l =>
      rw [List.length_cons] at hl
      rw [store, advance_nth (by simp at hl; omega), ih (by omega) fun i hi => ?_, hfirst]
      rw [Nat.add_assoc, Nat.add_comm 1 i]
      exact hc (i + 1) (by simpa using hi)

theorem store_hit {l : List α} {k i : ℕ} (hl : k + l.length ≤ w * h)
    (hinj : ∀ i < w * h, ∀ j < w * h, place (nth w i) = place (nth w j) → i = j) (hi : i < l.length) :
    store w h place l (nth w k) m (place (nth w (k + i))) = l[i] := by
  induction l generalizing k i m with
  | nil => simp at hi
  | cons a l ih =>
    rw [List.length_cons] at hl hi
    cases i with
    | zero =>
      -- the places behind the first are other places
      cases l with
      | nil => exact Function.update_self _ _ _
      | cons b l =>
        rw [List.length_cons] at hl
        rw [store, advance_nth (by omega), store_miss (by simp; omega) fun i hi heq => ?_]
        · exact Function.update_self _ _ _
        rw [List.length_cons] at hi
        have := hinj _ (by omega) _ (by omega) heq
        omega
    | succ i =>
      have hplace : k + (i + 1) = k + 1 + i := by omega
      rw [store, advance_nth (by omega), hplace]
      exact ih (by omega) (by omega)

end

end Base
