/-
  Rotation by reversal, for arrays of any length (`reverse` and `shift` in
  `HARDWARE/Src/dht11.c`).

  `shiftWithin size` is `shift` with a check of every index against `size`.

  * `shiftWithin_eq`: `shift(R, n, p)` stays within the first `n` elements;
  * `shift_shift`: rotations add up;
  * `pushes_slice`: pushing values keeps the newest of them.
-/
import DataRecorder.Dht11.Sampler

namespace DataRecorder

open Base

/-! ## Indices -/

/-- `reversePasses` on an array of `size` elements: `none` where an index is outside. -/
def reversePassesWithin (size : ℕ) (R : ℕ → UInt8) (first last : ℤ) : ℕ → Option (ℕ → UInt8)
  | 0 => some R
  | i + 1 => do
    let R ← reversePassesWithin size R first last i
    if 0 ≤ first + i ∧ first + i < size ∧ 0 ≤ last - i ∧ last - i < size then
      some (Function.update (Function.update R (first + i).toNat (R (last - i).toNat))
        (last - i).toNat (R (first + i).toNat))
    else none

def reverseWithin (size : ℕ) (R : ℕ → UInt8) (first last : ℤ) : Option (ℕ → UInt8) :=
  reversePassesWithin size R first last ((last - first + 1).tdiv 2).toNat

def shiftWithin (size : ℕ) (R : ℕ → UInt8) (n p : ℤ) : Option (ℕ → UInt8) := do
  let R ← reverseWithin size R 0 (p - 1)
  let R ← reverseWithin size R p (n - 1)
  reverseWithin size R 0 (n - 1)

theorem reversePassesWithin_eq (R : ℕ → UInt8) {size first n k : ℕ} (hn : n ≤ size)
    (hk : first + 2 * k ≤ n) :
    reversePassesWithin size R first ((n : ℤ) - 1) k = some (reversePasses R first (n - 1) k) := by
  induction k with
  | zero => rfl
  | succ k ih =>
    have hfirst : ((first : ℤ) + k).toNat = first + k := by omega
    have hlast : ((n : ℤ) - 1 - k).toNat = n - 1 - k := by omega
    rw [reversePassesWithin, ih (by omega), Option.bind_eq_bind, Option.bind_some, if_pos (by omega),
      hfirst, hlast, reversePasses]

theorem reverseWithin_eq (R : ℕ → UInt8) {size first n : ℕ} (h : first ≤ n) (hn : n ≤ size) :
    reverseWithin size R first ((n : ℤ) - 1) = some (reverse R first ((n : ℤ) - 1)) := by
  have hlast : ((n : ℤ) - 1).toNat = n - 1 := by omega
  rw [reverseWithin, reverse, passes_eq h, reversePassesWithin_eq R hn (by omega), hlast, Int.toNat_natCast]

/-- **No index leaves the first `n` elements.** -/
theorem shiftWithin_eq (R : ℕ → UInt8) {n p : ℕ} (h : p ≤ n) :
    shiftWithin n R n p = some (shift R n p) := by
  have hzero (R : ℕ → UInt8) {m : ℕ} (hm : m ≤ n) :
      reverseWithin n R 0 ((m : ℤ) - 1) = some (reverse R 0 ((m : ℤ) - 1)) :=
    @reverseWithin_eq R n 0 m (Nat.zero_le m) hm
  rw [shiftWithin, hzero R h]
  simp only [Option.bind_eq_bind, Option.bind_some]
  rw [reverseWithin_eq _ h (Nat.le_refl n), Option.bind_some, hzero _ (Nat.le_refl n), shift]

/-! ## Rotations -/

/-- **Rotations add up.** -/
theorem shift_shift (R : ℕ → UInt8) {n p q : ℕ} (hp : p ≤ n) (hq : q ≤ n) :
    shift (shift R n p) n q = shift R n ((p + q) % n : ℕ) := by
  funext i
  have hsum : (p + q) % n ≤ n := by
    rcases Nat.eq_zero_or_pos n with rfl | hn
    · omega
    · exact Nat.le_of_lt (Nat.mod_lt _ hn)
  rw [shift_apply _ hq, shift_apply R hsum]
  split_ifs with hi
  · -- both read the element `i + p + q`, modulo `n`
    rw [shift_apply R hp, if_pos (Nat.mod_lt _ (by omega)), Nat.mod_add_mod, Nat.add_mod_mod]
    congr 2; omega
  · rw [shift_apply R hp, if_neg hi]

/-! ## Pushing values -/

/-- `R[0] = v; shift(R, n, 1);` for each of the values. -/
def pushes (R : ℕ → UInt8) (n : ℕ) (vs : List UInt8) : ℕ → UInt8 :=
  vs.foldl (fun R v => shift (Function.update R 0 v) n 1) R

/-- **The window keeps the newest values**, in order: of the initial ones and those pushed. -/
theorem pushes_slice (R : ℕ → UInt8) {n : ℕ} (hn : 0 < n) (vs : List UInt8) :
    slice (pushes R n vs) 0 n = (slice R 0 n ++ vs).drop vs.length := by
  induction vs generalizing R with
  | nil => simp [pushes]
  | cons v vs ih =>
    have hpush := push_slice R v hn
    have hstep : pushes R n (v :: vs) = pushes (shift (Function.update R 0 v) n 1) n vs := rfl
    have hdrop : (slice R 0 n).drop 1 ++ v :: vs = (slice R 0 n ++ v :: vs).drop 1 :=
      (List.drop_append_of_le_length (by rw [slice_length]; exact hn)).symm
    rw [hstep, ih, hpush, List.append_assoc, List.singleton_append, hdrop, List.drop_drop,
      List.length_cons, Nat.add_comm]

/-- **`shift` rotates** left by `p` within the first `n` elements; rotations add up; and pushing
values with rotations by one keeps the last `n` in order. -/
theorem shift_rotates (R : ℕ → UInt8) {n p q : ℕ} (hp : p ≤ n) (hq : q ≤ n) :
    shiftWithin n R n p = some (shift R n p) ∧
      (∀ i < n, shift R n p i = R ((i + p) % n)) ∧ (∀ i, n ≤ i → shift R n p i = R i) ∧
      shift (shift R n p) n q = shift R n ((p + q) % n : ℕ) ∧
      (0 < n → ∀ vs, slice (pushes R n vs) 0 n = (slice R 0 n ++ vs).drop vs.length ∧
        (n ≤ vs.length → slice (pushes R n vs) 0 n = vs.drop (vs.length - n))) := by
  refine ⟨shiftWithin_eq R hp, ?_, ?_, shift_shift R hp hq, ?_⟩
  · intro i hi
    rw [shift_apply R hp, if_pos hi]
  · intro i hi
    rw [shift_apply R hp, if_neg (Nat.not_lt.2 hi)]
  · intro hn vs
    refine ⟨pushes_slice R hn vs, fun hlen => ?_⟩
    rw [pushes_slice R hn, List.drop_append, List.drop_of_length_le (by simpa using hlen),
      List.nil_append, slice_length]

/-- Five elements, rotated by 2 and by 4. -/
theorem shift_rotates_five : shift (fun i => UInt8.ofNat i) 5 2 3 = 0 ∧
    shift (shift (fun i => UInt8.ofNat i) 5 2) 5 4 = shift (fun i => UInt8.ofNat i) 5 1 ∧
    slice (pushes (fun i => UInt8.ofNat i) 5 [7, 8]) 0 5 = [2, 3, 4, 7, 8] := by
  obtain ⟨-, hrot, -, hadd, hpush⟩ :=
    shift_rotates (fun i => UInt8.ofNat i) (n := 5) (p := 2) (q := 4) (by decide) (by decide)
  exact ⟨hrot 3 (by decide), hadd, (hpush (by decide) [7, 8]).1⟩

end DataRecorder
