/-
  Digital differential analysers.

  An accumulator starts at zero and grows by `δ` in every pass; where it exceeds
  `D` it is reduced by `D` and the position moves on by one.  With `δ ≤ D` the
  number of moves after `k` passes and what is left in the accumulator have a
  closed form.

  * `moves_succ`, `residue_succ`: one pass;
  * `moves_full`: after `D + 1` passes the position has moved `δ` times;
  * `moves_near`: the moves of a slower accumulator stay within one of the ideal
    fraction of those of the fastest one.
-/
import Mathlib.Algebra.Order.Group.Unbundled.Int
import Mathlib.Tactic.Common
import Mathlib.Tactic.Ring

namespace Base.Dda

variable {D δ k : ℕ}

/-- The moves after `k` passes. -/
def moves (D δ k : ℕ) : ℕ := (k * δ - 1) / D

/-- The accumulator after `k` passes. -/
def residue (D δ k : ℕ) : ℕ := k * δ - D * moves D δ k

@[simp] theorem moves_zero : moves D δ 0 = 0 := by simp [moves]

@[simp] theorem moves_still : moves D 0 k = 0 := by simp [moves]

@[simp] theorem residue_zero : residue D δ 0 = 0 := by simp [residue]

@[simp] theorem residue_still : residue D 0 k = 0 := by simp [residue]

/-- Once the accumulator has grown it is positive and at most `D`. -/
theorem moves_bounds (hD : 0 < D) (hk : 0 < k * δ) :
    D * moves D δ k < k * δ ∧ k * δ ≤ D * moves D δ k + D := by
  have hdiv : D * moves D δ k + (k * δ - 1) % D = k * δ - 1 := Nat.div_add_mod (k * δ - 1) D
  have hmod : (k * δ - 1) % D < D := Nat.mod_lt _ hD
  omega

theorem moves_eq {q : ℕ} (hlo : D * q < k * δ) (hhi : k * δ ≤ D * q + D) : moves D δ k = q := by
  have hcomm : D * q = q * D := Nat.mul_comm D q
  have hsucc : (q + 1) * D = q * D + D := Nat.succ_mul q D
  exact Nat.div_eq_of_lt_le (by omega) (by omega)

theorem residue_add_moves : residue D δ k + D * moves D δ k = k * δ := by
  have hle : D * moves D δ k ≤ k * δ := by
    rw [Nat.mul_comm]
    exact (Nat.div_mul_le_self _ _).trans (Nat.sub_le _ _)
  exact Nat.sub_add_cancel hle

theorem residue_le (hδ : δ ≤ D) : residue D δ k ≤ D := by
  rcases Nat.eq_zero_or_pos (k * δ) with hk | hk
  · simp [residue, hk]
  · have hD : 0 < D := (Nat.pos_of_mul_pos_left hk).trans_le hδ
    have hb := moves_bounds hD hk
    have hr : residue D δ k + D * moves D δ k = k * δ := residue_add_moves
    omega

/-- **One pass** moves the position if and only if the accumulator exceeds `D`. -/
theorem moves_succ (hδ : δ ≤ D) : moves D δ (k + 1) =
    if D < residue D δ k + δ then moves D δ k + 1 else moves D δ k := by
  rcases Nat.eq_zero_or_pos δ with rfl | hpos
  · simp
  have hsucc : (k + 1) * δ = k * δ + δ := by rw [Nat.add_mul, Nat.one_mul]
  have hr : residue D δ k + D * moves D δ k = k * δ := residue_add_moves
  have hle : residue D δ k ≤ D := residue_le hδ
  have hstep : D * (moves D δ k + 1) = D * moves D δ k + D := Nat.mul_succ _ _
  split
  · exact moves_eq (by omega) (by omega)
  · exact moves_eq (by omega) (by omega)

theorem residue_succ (hδ : δ ≤ D) : residue D δ (k + 1) =
    if D < residue D δ k + δ then residue D δ k + δ - D else residue D δ k + δ := by
  have hsucc : (k + 1) * δ = k * δ + δ := by rw [Nat.add_mul, Nat.one_mul]
  have hr : residue D δ k + D * moves D δ k = k * δ := residue_add_moves
  have hr' : residue D δ (k + 1) + D * moves D δ (k + 1) = (k + 1) * δ := residue_add_moves
  rw [moves_succ hδ] at hr'
  split at hr'
  · rename_i hlt
    have hstep : D * (moves D δ k + 1) = D * moves D δ k + D := Nat.mul_succ _ _
    rw [if_pos hlt]
    omega
  · rename_i hlt
    rw [if_neg hlt]
    omega

/-- The fastest accumulator moves in every pass but the first. -/
theorem moves_self (hD : 0 < D) : moves D D k = k - 1 := by
  cases k with
  | zero => simp
  | succ k =>
    have hsucc : (k + 1) * D = D * k + D := by rw [Nat.add_mul, Nat.one_mul, Nat.mul_comm]
    rw [Nat.add_sub_cancel]
    exact moves_eq (by omega) (by omega)

/-- **The position arrives**: `D + 1` passes make `δ` moves. -/
theorem moves_full (hδ : δ ≤ D) : moves D δ (D + 1) = δ := by
  rcases Nat.eq_zero_or_pos δ with rfl | hpos
  · simp
  have hsucc : (D + 1) * δ = D * δ + δ := by rw [Nat.add_mul, Nat.one_mul]
  exact moves_eq (by omega) (by omega)

theorem moves_mono : Monotone (moves D δ) := fun _ _ h =>
  Nat.div_le_div_right (Nat.sub_le_sub_right (Nat.mul_le_mul_right δ h) 1)

theorem moves_le (hδ : δ ≤ D) (hk : k ≤ D + 1) : moves D δ k ≤ δ :=
  (moves_mono hk).trans_eq (moves_full hδ)

/-- **The ideal line**: `moves D δ` stays within one of `δ / D` times `moves D D`. -/
theorem moves_near (hD : 0 < D) (hδ : δ ≤ D) :
    |(D * moves D δ k : ℤ) - moves D D k * δ| < D := by
  rcases Nat.eq_zero_or_pos (k * δ) with hk | hk
  · rcases Nat.mul_eq_zero.1 hk with rfl | rfl
    · simpa using hD
    · simpa using hD
  · obtain ⟨hlo, hhi⟩ := moves_bounds hD hk
    have hpos : 0 < δ := Nat.pos_of_mul_pos_left hk
    have hk1 : 0 < k := Nat.pos_of_mul_pos_right hk
    have hmajor : moves D D k * δ + δ = k * δ := by
      rw [moves_self hD, ← Nat.succ_mul, Nat.succ_eq_add_one, Nat.sub_add_cancel hk1]
    rw [← Nat.cast_mul, ← Nat.cast_mul, abs_lt]
    constructor <;> omega

end Base.Dda
