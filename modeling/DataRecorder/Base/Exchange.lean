/-
  Exchange sort in place: for each index, the element there is compared with every
  later one, and exchanged with it if it is larger.

  * `exchangeAt_apply`: an exchange puts the smaller element first;
  * `passFrom_le`: a pass puts the smallest of the remaining elements in place;
  * `sortRange_perm`, `sortRange_le`: the sort.
-/
import DataRecorder.Base.Memory
import Mathlib.Data.List.NodupEquivFin
import Mathlib.Data.List.Range
import Mathlib.Order.Lattice
import Mathlib.Order.Defs.LinearOrder

namespace Base

variable {α : Type*} [LinearOrder α]

/-- `if (buf[i] > buf[j])` exchange them, for the pair `(i, j)`. -/
def exchangeAt (buf : ℕ → α) (p : ℕ × ℕ) : ℕ → α :=
  if buf p.2 < buf p.1 then Function.update (Function.update buf p.1 (buf p.2)) p.2 (buf p.1) else buf

/-- The pairs of the pass at `i`, over `n` elements. -/
def passPairs (n i : ℕ) : List (ℕ × ℕ) := (List.range' (i + 1) (n - (i + 1))).map fun j => (i, j)

/-- The pairs of the sort of `n` elements. -/
def rangePairs (n : ℕ) : List (ℕ × ℕ) := (List.range (n - 1)).flatMap (passPairs n)

def sortRange (n : ℕ) (buf : ℕ → α) : ℕ → α := (rangePairs n).foldl exchangeAt buf

section
variable {buf : ℕ → α} {i j k n : ℕ}

/-! ## One exchange -/

theorem exchangeAt_apply (hij : i < j) : exchangeAt buf (i, j) k =
    if k = i then min (buf i) (buf j) else if k = j then max (buf i) (buf j) else buf k := by
  unfold exchangeAt
  by_cases hlt : buf j < buf i
  · rw [if_pos hlt, min_eq_right hlt.le, max_eq_left hlt.le]
    by_cases hi : k = i
    · rw [if_pos hi, hi, Function.update_of_ne (by omega), Function.update_self]
    rw [if_neg hi]
    by_cases hj : k = j
    · rw [if_pos hj, hj, Function.update_self]
    · rw [if_neg hj, Function.update_of_ne hj, Function.update_of_ne hi]
  · rw [if_neg hlt, min_eq_left (not_lt.1 hlt), max_eq_right (not_lt.1 hlt)]
    split_ifs with hi hj
    · rw [hi]
    · rw [hj]
    · rfl

/-- An exchange permutes the elements. -/
theorem exchangeAt_perm (hi : i < n) (hj : j < n) :
    (slice (exchangeAt buf (i, j)) 0 n).Perm (slice buf 0 n) := by
  unfold exchangeAt
  split_ifs
  swap
  · exact List.Perm.refl _
  have hswap : Function.update (Function.update buf i (buf j)) j (buf i) = buf ∘ Equiv.swap i j := by
    funext k
    by_cases hkj : k = j
    · rw [hkj, Function.update_self, Function.comp_apply, Equiv.swap_apply_right]
    rw [Function.update_of_ne hkj]
    by_cases hki : k = i
    · rw [hki, Function.update_self, Function.comp_apply, Equiv.swap_apply_left]
    · rw [Function.update_of_ne hki, Function.comp_apply, Equiv.swap_apply_of_ne_of_ne hki hkj]
  have hrange : ((List.range n).map (Equiv.swap i j)).Perm (List.range n) := by
    refine (List.perm_ext_iff_of_nodup
      (List.nodup_range.map (Equiv.swap i j).injective) List.nodup_range).2 fun k => ?_
    rw [List.mem_map, List.mem_range]
    constructor
    · rintro ⟨l, hl, rfl⟩
      rw [List.mem_range] at hl
      rw [Equiv.swap_apply_def]
      split_ifs <;> assumption
    · intro hk
      refine ⟨Equiv.swap i j k, ?_, Equiv.swap_apply_self i j k⟩
      rw [List.mem_range, Equiv.swap_apply_def]
      split_ifs <;> assumption
  rw [hswap]
  simpa only [slice, Nat.zero_add, List.map_map] using hrange.map buf

/-! ## One pass -/

/-- The first `m` exchanges of the pass at `i`. -/
def passFrom (i m : ℕ) (buf : ℕ → α) : ℕ → α :=
  ((List.range' (i + 1) m).map fun j => (i, j)).foldl exchangeAt buf

theorem passFrom_succ (m : ℕ) : passFrom i (m + 1) buf = exchangeAt (passFrom i m buf) (i, i + 1 + m) := by
  rw [passFrom, List.range'_1_concat, List.map_append, List.foldl_append]
  rfl

/-- A pass leaves the elements in front of it alone. -/
theorem passFrom_of_lt (m : ℕ) (hk : k < i) : passFrom i m buf k = buf k := by
  induction m with
  | zero => rfl
  | succ m ih => rw [passFrom_succ, exchangeAt_apply (by omega), if_neg (by omega), if_neg (by omega), ih]

/-- A pass brings the smallest of the elements it has met to the front. -/
theorem passFrom_le {m : ℕ} (hik : i ≤ k) (hk : k < i + 1 + m) :
    passFrom i m buf i ≤ passFrom i m buf k := by
  induction m with
  | zero =>
    rw [show k = i by omega]
  | succ m ih =>
    rw [passFrom_succ, exchangeAt_apply (by omega), exchangeAt_apply (by omega), if_pos rfl]
    by_cases hki : k = i
    · rw [if_pos hki]
    rw [if_neg hki]
    by_cases hlast : k = i + 1 + m
    · rw [if_pos hlast]
      exact (min_le_left _ _).trans (le_max_left _ _)
    · rw [if_neg hlast]
      exact (min_le_left _ _).trans (ih (by omega))

/-- A bound of all elements from `i` on stays one. -/
theorem le_passFrom {b : α} {m : ℕ} (hb : ∀ k, i ≤ k → k < n → b ≤ buf k) (hm : i + 1 + m ≤ n)
    (hik : i ≤ k) (hk : k < n) : b ≤ passFrom i m buf k := by
  induction m generalizing k with
  | zero => exact hb k hik hk
  | succ m ih =>
    have hfirst := ih (by omega) (Nat.le_refl i) (by omega)
    have hlast := ih (k := i + 1 + m) (by omega) (by omega) (by omega)
    rw [passFrom_succ, exchangeAt_apply (by omega)]
    split_ifs
    · exact le_min hfirst hlast
    · exact hfirst.trans (le_max_left _ _)
    · exact ih (by omega) hik hk

theorem passFrom_perm {m : ℕ} (hm : i + 1 + m ≤ n) :
    (slice (passFrom i m buf) 0 n).Perm (slice buf 0 n) := by
  induction m with
  | zero => exact List.Perm.refl _
  | succ m ih =>
    rw [passFrom_succ]
    exact (exchangeAt_perm (by omega) (by omega)).trans (ih (by omega))

/-! ## The sort -/

/-- The first `i` passes over `n` elements. -/
def passesTo (n i : ℕ) (buf : ℕ → α) : ℕ → α :=
  ((List.range i).flatMap (passPairs n)).foldl exchangeAt buf

theorem passesTo_succ : passesTo n (i + 1) buf = passFrom i (n - (i + 1)) (passesTo n i buf) := by
  rw [passesTo, List.range_succ, List.flatMap_append, List.foldl_append, List.flatMap_singleton]
  rfl

theorem passesTo_perm (hi : i < n) : (slice (passesTo n i buf) 0 n).Perm (slice buf 0 n) := by
  induction i with
  | zero => exact List.Perm.refl _
  | succ i ih =>
    rw [passesTo_succ]
    exact (passFrom_perm (by omega)).trans (ih (by omega))

/-- The first `i` elements are in place: none is larger than an element after it. -/
theorem passesTo_le (hi : i < n) (hj : j < i) (hjk : j ≤ k) (hk : k < n) :
    passesTo n i buf j ≤ passesTo n i buf k := by
  induction i generalizing j k with
  | zero => omega
  | succ i ih =>
    rw [passesTo_succ]
    by_cases hji : j = i
    · rw [hji]
      exact passFrom_le (by omega) (by omega)
    · -- an element in place is a bound of all that follow
      rw [passFrom_of_lt _ (show j < i by omega)]
      by_cases hki : k < i
      · rw [passFrom_of_lt _ hki]
        exact ih (by omega) (by omega) hjk hk
      · exact le_passFrom (fun l hl hln => ih (by omega) (by omega) (by omega) hln) (by omega)
          (by omega) hk

end

theorem sortRange_perm (n : ℕ) (buf : ℕ → α) : (slice (sortRange n buf) 0 n).Perm (slice buf 0 n) := by
  cases n with
  | zero => exact List.Perm.refl _
  | succ n => exact passesTo_perm (Nat.lt_succ_self n)

/-- **The sort** puts the elements in order. -/
theorem sortRange_le {n j k : ℕ} (buf : ℕ → α) (hjk : j ≤ k) (hk : k < n) :
    sortRange n buf j ≤ sortRange n buf k := by
  rcases Nat.lt_or_ge j (n - 1) with hj | hj
  · exact passesTo_le (by omega) hj hjk hk
  · rw [show j = k by omega]

end Base
