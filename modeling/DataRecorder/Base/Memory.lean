/-
  Byte-addressed memories, as functions from addresses to cells.

  * `slice m a n` reads the `n` cells from address `a`;
  * `blit m a l` writes the list `l` from address `a` (a `memcpy`).

  The lemmas say how a slice splits, and what a slice sees of a blit that lies
  inside it, beside it, or covers it.
-/
import Mathlib.Data.List.Basic
import Mathlib.Data.Nat.Basic
import Mathlib.Tactic.Common

namespace Base

variable {α : Type*}

/-- The `n` cells of `m` from address `a`. -/
def slice (m : ℕ → α) (a n : ℕ) : List α := (List.range n).map fun i => m (a + i)

/-- `m` with the list `l` written from address `a`. -/
def blit (m : ℕ → α) (a : ℕ) (l : List α) : ℕ → α :=
  fun i => if a ≤ i then l[i - a]?.getD (m i) else m i

/-! ## Slices -/

@[simp] theorem slice_length (m : ℕ → α) (a n : ℕ) : (slice m a n).length = n := by simp [slice]

@[simp] theorem slice_zero (m : ℕ → α) (a : ℕ) : slice m a 0 = [] := rfl

theorem slice_getElem (m : ℕ → α) (a n i : ℕ) (h : i < (slice m a n).length) :
    (slice m a n)[i] = m (a + i) := by simp [slice]

theorem slice_congr {m m' : ℕ → α} {a n : ℕ} (h : ∀ i, a ≤ i → i < a + n → m i = m' i) :
    slice m a n = slice m' a n := by
  refine List.map_congr_left fun i hi => h _ (by omega) ?_
  have := List.mem_range.1 hi; omega

theorem slice_add (m : ℕ → α) (a n k : ℕ) : slice m a (n + k) = slice m a n ++ slice m (a + n) k := by
  simp only [slice, List.range_add, List.map_append, List.map_map]
  congr 1
  exact List.map_congr_left fun i _ => by simp [Nat.add_assoc]

theorem slice_split (m : ℕ → α) {a b c : ℕ} (h₁ : a ≤ b) (h₂ : b ≤ c) :
    slice m a (c - a) = slice m a (b - a) ++ slice m b (c - b) := by
  rw [show c - a = (b - a) + (c - b) by omega, slice_add, show a + (b - a) = b by omega]

theorem slice_take (m : ℕ → α) (a n k : ℕ) : (slice m a n).take k = slice m a (min k n) := by
  rcases Nat.le_total k n with h | h
  · rw [Nat.min_eq_left h]
    conv_lhs => rw [show n = k + (n - k) by omega, slice_add]
    rw [List.take_append_of_le_length (by simp), List.take_of_length_le (by simp)]
  · rw [Nat.min_eq_right h, List.take_of_length_le (by simpa using h)]

theorem slice_drop (m : ℕ → α) (a n k : ℕ) : (slice m a n).drop k = slice m (a + k) (n - k) := by
  rcases Nat.le_total k n with h | h
  · conv_lhs => rw [show n = k + (n - k) by omega, slice_add]
    rw [List.drop_append_of_le_length (by simp), List.drop_of_length_le (by simp), List.nil_append]
  · rw [List.drop_of_length_le (by simpa using h), show n - k = 0 by omega, slice_zero]

/-! ## Blits -/

@[simp] theorem blit_nil (m : ℕ → α) (a : ℕ) : blit m a [] = m := by funext i; simp [blit]

theorem blit_of_lt (m : ℕ → α) {a i : ℕ} (l : List α) (h : i < a) : blit m a l i = m i := by
  simp [blit, Nat.not_le.2 h]

theorem blit_of_ge (m : ℕ → α) {a i : ℕ} {l : List α} (h : a + l.length ≤ i) : blit m a l i = m i := by
  simp [blit, List.getElem?_eq_none (show l.length ≤ i - a by omega)]

theorem blit_add (m : ℕ → α) (a : ℕ) {k : ℕ} {l : List α} (h : k < l.length) :
    blit m a l (a + k) = l[k] := by
  simp [blit, List.getElem?_eq_getElem h]

theorem blit_outside (m : ℕ → α) {a i : ℕ} {l : List α} (h : i < a ∨ a + l.length ≤ i) :
    blit m a l i = m i :=
  h.elim (blit_of_lt m l) (blit_of_ge m)

/-- **Reading back a blit.** -/
theorem slice_blit (m : ℕ → α) (a : ℕ) (l : List α) : slice (blit m a l) a l.length = l := by
  refine List.ext_getElem (by simp) fun i h₁ h₂ => ?_
  rw [slice_getElem, blit_add m a h₂]

theorem slice_blit_eq (m : ℕ → α) (a : ℕ) {l : List α} {n : ℕ} (h : l.length = n) :
    slice (blit m a l) a n = l := h ▸ slice_blit m a l

theorem slice_blit_outside (m : ℕ → α) {a b n : ℕ} {l : List α} (h : b + n ≤ a ∨ a + l.length ≤ b) :
    slice (blit m a l) b n = slice m b n :=
  slice_congr fun i _ _ => blit_outside m (by omega)

/-- A blit behind a block extends it. -/
theorem slice_blit_extend (m : ℕ → α) {a b c : ℕ} {l : List α} (hb : a ≤ b) (hc : b + l.length = c) :
    slice (blit m b l) a (c - a) = slice m a (b - a) ++ l := by
  have hblock : slice (blit m b l) a (b - a) = slice m a (b - a) := slice_blit_outside m (Or.inl (by omega))
  have hbehind : slice (blit m b l) b (c - b) = l := slice_blit_eq m b (by omega)
  rw [slice_split _ hb (by omega), hblock, hbehind]

theorem slice_blit_inside (m : ℕ → α) (a : ℕ) {o n : ℕ} {l : List α} (h : o + n ≤ l.length) :
    slice (blit m a l) (a + o) n = (l.drop o).take n := by
  refine List.ext_getElem (by simp; omega) fun i hi _ => ?_
  rw [slice_length] at hi
  rw [slice_getElem, List.getElem_take, List.getElem_drop, Nat.add_assoc, blit_add m a (by omega)]

theorem blit_append (m : ℕ → α) (a : ℕ) (l l' : List α) :
    blit m a (l ++ l') = blit (blit m a l) (a + l.length) l' := by
  funext i
  rcases Nat.lt_or_ge i a with h | h
  · rw [blit_of_lt _ _ h, blit_of_lt _ _ (by omega), blit_of_lt _ _ h]
  obtain ⟨k, rfl⟩ := Nat.exists_eq_add_of_le h
  rcases Nat.lt_or_ge k l.length with hk | hk
  · rw [blit_add _ _ (by simp; omega), blit_of_lt _ _ (by omega), blit_add _ _ hk,
      List.getElem_append_left]
  obtain ⟨j, rfl⟩ := Nat.exists_eq_add_of_le hk
  rcases Nat.lt_or_ge j l'.length with hj | hj
  · rw [blit_add _ _ (by simp; omega), ← Nat.add_assoc, blit_add _ _ hj,
      List.getElem_append_right (by omega)]
    simp
  · rw [blit_of_ge _ (by simp; omega), blit_of_ge _ (by omega), blit_of_ge _ (by omega)]

/-! ## Single writes -/

/-- `m` after the single-cell writes `ws`, in order. -/
def writes (m : ℕ → α) (ws : List (ℕ × α)) : ℕ → α :=
  ws.foldl (fun m w => Function.update m w.1 w.2) m

/-- The single-cell writes of the list `l` from address `a` upwards. -/
def upwards (a : ℕ) (l : List α) : List (ℕ × α) := (l.zipIdx a).map Prod.swap

theorem upwards_cons (a : ℕ) (x : α) (l : List α) :
    upwards a (x :: l) = (a, x) :: upwards (a + 1) l := by simp [upwards]

theorem lt_of_mem_upwards {a : ℕ} {l : List α} {w : ℕ × α} (h : w ∈ upwards a l) :
    w.1 < a + l.length := by
  induction l generalizing a with
  | nil => simp [upwards] at h
  | cons x l ih =>
    rw [upwards_cons, List.mem_cons] at h
    rw [List.length_cons]
    rcases h with rfl | h
    · exact Nat.lt_add_of_pos_right (Nat.succ_pos _)
    · have hlt := ih h
      omega

theorem upwards_take (a k : ℕ) (l : List α) : (upwards a l).take k = upwards a (l.take k) := by
  induction l generalizing a k with
  | nil => simp [upwards]
  | cons x l ih =>
    cases k with
    | zero => simp [upwards]
    | succ k => rw [upwards_cons, List.take_succ_cons, ih, List.take_succ_cons, upwards_cons]

theorem writes_upwards (m : ℕ → α) (a : ℕ) (l : List α) :
    writes m (upwards a l) = blit m a l := by
  induction l generalizing m a with
  | nil => rw [blit_nil]; rfl
  | cons x l ih =>
    have hcell : Function.update m a x = blit m a [x] := by
      funext i
      rcases Nat.lt_trichotomy i a with h | rfl | h
      · rw [blit_of_lt _ _ h, Function.update_of_ne (by omega)]
      · rw [Function.update_self]; simp [blit]
      · rw [blit_of_ge _ (by simpa using Nat.succ_le_of_lt h), Function.update_of_ne (by omega)]
    rw [upwards_cons, ← List.singleton_append (l := l), blit_append, ← hcell]
    exact ih _ _

/-- A loop over the indices in `l` writes the values `v` at those that meet `q`. -/
theorem foldl_update_if {ι β : Type*} [DecidableEq ι] (q : ι → Prop) [DecidablePred q] (v : ι → β)
    (l : List ι) (f : ι → β) : l.foldl (fun f i => if q i then Function.update f i (v i) else f) f =
      fun i => if i ∈ l ∧ q i then v i else f i := by
  induction l generalizing f with
  | nil => simp
  | cons j l ih =>
    rw [List.foldl_cons, ih]
    funext i
    rcases eq_or_ne i j with rfl | hij
    · by_cases hi : q i <;> simp [hi]
    · have hsame : (if q j then Function.update f j (v j) else f) i = f i := by
        split_ifs
        · exact Function.update_of_ne hij _ _
        · rfl
      simp only [List.mem_cons, hij, false_or, hsame]

/-! ## Strings -/

/-- The string at address `a`, if it ends within `n` cells. -/
def cString (m : ℕ → UInt8) (a n : ℕ) : Option (List UInt8) :=
  if 0 ∈ slice m a n then some ((slice m a n).takeWhile (· ≠ 0)) else none

theorem takeWhile_ne_eq_iff {l s : List UInt8} :
    0 ∈ l ∧ l.takeWhile (· ≠ 0) = s ↔ 0 ∉ s ∧ ∃ rest, l = s ++ 0 :: rest := by
  induction l generalizing s with
  | nil => simp
  | cons b l ih =>
    by_cases hb : b = 0
    · subst hb
      cases s with
      | nil => simp
      | cons c s =>
        simp only [List.takeWhile_cons, ne_eq, not_true_eq_false, decide_false, Bool.false_eq_true,
          if_false, reduceCtorEq, and_false, false_iff, List.cons_append, List.cons.injEq, not_and,
          not_exists]
        intro hs rest hc
        exact absurd (hc ▸ List.mem_cons_self) hs
    · cases s with
      | nil => simp [hb]
      | cons c s =>
        have := @ih s
        simp only [List.mem_cons, Ne.symm hb, false_or, List.takeWhile_cons, ne_eq, hb,
          not_false_eq_true, decide_true, if_true, List.cons.injEq, List.cons_append] at this ⊢
        constructor
        · rintro ⟨hmem, rfl, htail⟩
          obtain ⟨hs, rest, rfl⟩ := this.1 ⟨hmem, htail⟩
          exact ⟨by simp [Ne.symm hb, hs], rest, rfl, rfl⟩
        · rintro ⟨hs, rest, rfl, rfl⟩
          obtain ⟨hmem, htail⟩ := this.2 ⟨fun h => hs (Or.inr h), rest, rfl⟩
          exact ⟨hmem, rfl, htail⟩

/-- **A string** ends at its first NUL. -/
theorem cString_eq_some_iff {m : ℕ → UInt8} {a n : ℕ} {s : List UInt8} : cString m a n = some s ↔
    0 ∉ s ∧ s.length < n ∧ slice m a s.length = s ∧ m (a + s.length) = 0 := by
  have hstring : cString m a n = some s ↔
      0 ∈ slice m a n ∧ (slice m a n).takeWhile (· ≠ 0) = s := by
    unfold cString
    split_ifs with h
    · simp [h]
    · simp [h]
  rw [hstring, takeWhile_ne_eq_iff]
  refine and_congr_right fun _ => ?_
  constructor
  · rintro ⟨rest, hrest⟩
    have hlen := congrArg List.length hrest
    simp only [slice_length, List.length_append, List.length_cons] at hlen
    have hcut := congrArg (List.take (s.length + 1)) hrest
    rw [slice_take, Nat.min_eq_left (by omega), slice_add, ← List.singleton_append,
      ← List.append_assoc, List.take_left' (by simp)] at hcut
    obtain ⟨hs, hz⟩ := List.append_inj hcut (slice_length m a s.length)
    exact ⟨by omega, hs, by simpa [slice] using hz⟩
  · rintro ⟨hlt, hs, hz⟩
    obtain ⟨k, rfl⟩ := Nat.exists_eq_add_of_lt hlt
    refine ⟨slice m (a + s.length + 1) k, ?_⟩
    rw [Nat.add_assoc, Nat.add_comm k 1, slice_add, slice_add, hs]
    simp [slice, hz]

end Base
