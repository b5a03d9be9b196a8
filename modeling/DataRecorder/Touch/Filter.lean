/-
  The filter of the touch screen: `TP_Read_XOY` (`HARDWARE/TOUCH/touch.c`).

  Five conversions are sorted; the smallest and the largest are dropped, and the
  mean of the other three is the result.

  * `sortedBuf_inOrder`: the buffer after the sort;
  * `tpReadXOY_toNat`: the mean of those kept, whose `u16` sum does not overflow;
  * `filter_correct`: what the filter yields, in any order and with any one of the
    conversions disturbed.
-/
import DataRecorder.Base.Exchange
import DataRecorder.Touch.Scan

namespace DataRecorder.Touch

open Base

/-! ## The specification -/

def lowest (l : List ℕ) : ℕ := l.min?.getD 0

def highest (l : List ℕ) : ℕ := l.max?.getD 0

/-- The elements from the smallest to the largest: number `k` of them. -/
def ranked (l : List ℕ) (k : ℕ) : ℕ := (l.mergeSort).getD k 0

theorem lowest_eq {l : List ℕ} {a : ℕ} (h : a ∈ l) (hle : ∀ b ∈ l, a ≤ b) : lowest l = a := by
  rw [lowest, List.min?_eq_some_iff.2 ⟨h, hle⟩, Option.getD_some]

theorem highest_eq {l : List ℕ} {a : ℕ} (h : a ∈ l) (hle : ∀ b ∈ l, b ≤ a) : highest l = a := by
  rw [highest, List.max?_eq_some_iff.2 ⟨h, hle⟩, Option.getD_some]

theorem ranked_eq {l s : List ℕ} (hs : s.Pairwise (· ≤ ·)) (hp : s.Perm l) (k : ℕ) :
    ranked l k = s.getD k 0 := by
  have hsorted : (l.mergeSort).Pairwise (· ≤ ·) := by
    refine (List.pairwise_mergeSort ?_ ?_ l).imp fun h => of_decide_eq_true h
    · intro a b c hab hbc
      exact decide_eq_true (Nat.le_trans (of_decide_eq_true hab) (of_decide_eq_true hbc))
    · intro a b
      simpa using Nat.le_total a b
  have heq : l.mergeSort = s :=
    List.Perm.eq_of_pairwise (fun a b _ _ h h' => Nat.le_antisymm h h') hsorted hs
      ((List.mergeSort_perm l _).trans hp.symm)
  rw [ranked, heq]

/-! ## Five elements in order -/

section
variable {l : List ℕ} {a : ℕ → ℕ}

/-- The elements of `l` are `a 0` to `a 4`, in order. -/
structure InOrder (l : List ℕ) (a : ℕ → ℕ) : Prop where
  perm : (slice a 0 5).Perm l
  le : ∀ {j k}, j ≤ k → k < 5 → a j ≤ a k

theorem slice_five (a : ℕ → ℕ) : slice a 0 5 = [a 0, a 1, a 2, a 3, a 4] := rfl

namespace InOrder

variable (h : InOrder l a)
include h

theorem mem_iff {b : ℕ} : b ∈ l ↔ ∃ k < 5, a k = b := by
  rw [← h.perm.mem_iff, slice, List.mem_map]
  simp only [List.mem_range, Nat.zero_add]

theorem lowest : lowest l = a 0 := by
  refine lowest_eq (h.mem_iff.2 ⟨0, by decide, rfl⟩) fun b hb => ?_
  obtain ⟨k, hk, rfl⟩ := h.mem_iff.1 hb
  exact h.le (Nat.zero_le k) hk

theorem highest : highest l = a 4 := by
  refine highest_eq (h.mem_iff.2 ⟨4, by decide, rfl⟩) fun b hb => ?_
  obtain ⟨k, hk, rfl⟩ := h.mem_iff.1 hb
  exact h.le (by omega) (by decide)

theorem sum : l.sum = a 0 + a 1 + a 2 + a 3 + a 4 := by
  rw [← h.perm.sum_eq, slice_five]
  simp only [List.sum_cons, List.sum_nil]
  omega

theorem ranked {k : ℕ} (hk : k < 5) : ranked l k = a k := by
  have hsorted : (slice a 0 5).Pairwise (· ≤ ·) := by
    refine List.pairwise_iff_getElem.2 fun i j hi hj hij => ?_
    rw [slice_length] at hj
    rw [slice_getElem, slice_getElem, Nat.zero_add, Nat.zero_add]
    exact h.le (Nat.le_of_lt hij) hj
  rw [ranked_eq hsorted h.perm]
  simp [slice, hk]

/-- Without one of the elements, one of two that meet `P` is left. -/
theorem exists_mem_eraseIdx {P : ℕ → Prop} [DecidablePred P] (htwo : 2 ≤ (slice a 0 5).countP P)
    (i : ℕ) (hi : i < l.length) : ∃ b ∈ l.eraseIdx i, P b := by
  have hcount := ((List.getElem_cons_eraseIdx_perm hi).trans h.perm.symm).countP_eq P
  rw [← hcount, List.countP_cons] at htwo
  have hpos : 0 < (l.eraseIdx i).countP P := by
    split at htwo <;> omega
  obtain ⟨b, hb, hP⟩ := List.countP_pos_iff.1 hpos
  exact ⟨b, hb, of_decide_eq_true hP⟩

/-- There is still one among the first two, -/
theorem lowest_eraseIdx_le (i : ℕ) (hi : i < l.length) : Touch.lowest (l.eraseIdx i) ≤ a 1 := by
  have h₀ := h.le (show 0 ≤ 1 by decide) (by decide)
  have htwo : 2 ≤ (slice a 0 5).countP (· ≤ a 1) := by
    simp only [slice_five, List.countP_cons, le_refl, h₀, decide_true, if_true]
    omega
  obtain ⟨b, hb, hle⟩ := h.exists_mem_eraseIdx htwo i hi
  exact (List.min?_getD_le_of_mem hb).trans hle

/-- and one among the last two. -/
theorem le_highest_eraseIdx (i : ℕ) (hi : i < l.length) : a 3 ≤ Touch.highest (l.eraseIdx i) := by
  have h₄ := h.le (show 3 ≤ 4 by decide) (by decide)
  have htwo : 2 ≤ (slice a 0 5).countP (a 3 ≤ ·) := by
    simp only [slice_five, List.countP_cons, le_refl, h₄, decide_true, if_true]
    omega
  obtain ⟨b, hb, hle⟩ := h.exists_mem_eraseIdx htwo i hi
  exact hle.trans (List.le_max?_getD_of_mem hb)

end InOrder

end

section
variable (dout : UInt8 → ℕ → UInt16) (xy : UInt8) (n : ℕ)

/-- The conversions of a call of `TP_Read_XOY`, in the order they are made. -/
def conversions : List ℕ := slice (fun i => (tpReadAD dout xy (n + i)).toNat) 0 readTimes

/-- The buffer after the sort. -/
def sortedBuf : ℕ → UInt16 := sortPairs.foldl exchange fun i => tpReadAD dout xy (n + i)

/-- The sum of the elements that are kept, without bounds. -/
def keptSum : ℕ :=
  (List.range' lostVal (readTimes - 2 * lostVal)).foldl (fun sum i => sum + (sortedBuf dout xy n i).toNat) 0

/-! ## The sort -/

theorem exchange_toNat (buf : ℕ → UInt16) (p : ℕ × ℕ) :
    exchangeAt (UInt16.toNat ∘ buf) p = UInt16.toNat ∘ exchange buf p := by
  unfold exchangeAt exchange
  have hlt : (UInt16.toNat ∘ buf) p.2 < (UInt16.toNat ∘ buf) p.1 ↔ buf p.1 > buf p.2 :=
    UInt16.lt_iff_toNat_lt.symm
  by_cases h : buf p.1 > buf p.2
  · rw [if_pos (hlt.2 h), if_pos h, Function.comp_update, Function.comp_update]
    rfl
  · rw [if_neg fun h' => h (hlt.1 h'), if_neg h]

theorem sortedBuf_toNat :
    UInt16.toNat ∘ sortedBuf dout xy n = sortRange readTimes fun i => (tpReadAD dout xy (n + i)).toNat :=
  (List.foldl_hom (UInt16.toNat ∘ ·) exchange_toNat).symm

/-- **The sort permutes the conversions.** -/
theorem sortedBuf_perm :
    (slice (UInt16.toNat ∘ sortedBuf dout xy n) 0 readTimes).Perm (conversions dout xy n) := by
  rw [sortedBuf_toNat]
  exact sortRange_perm readTimes _

theorem sortedBuf_le {j k : ℕ} (hjk : j ≤ k) (hk : k < readTimes) :
    (sortedBuf dout xy n j).toNat ≤ (sortedBuf dout xy n k).toNat := by
  have h := sortRange_le (fun i => (tpReadAD dout xy (n + i)).toNat) hjk hk
  rwa [← sortedBuf_toNat] at h

theorem tpReadAD_lt (i : ℕ) : (tpReadAD dout xy i).toNat < 4096 := by
  have h := (dout xy i).toNat_lt
  rw [tpReadAD, UInt16.toNat_shiftRight, Nat.shiftRight_eq_div_pow]
  simp only [UInt16.reduceToNat, Nat.reduceMod]
  omega

theorem sortedBuf_lt {k : ℕ} (hk : k < readTimes) : (sortedBuf dout xy n k).toNat < 4096 := by
  have hmem : (sortedBuf dout xy n k).toNat ∈ conversions dout xy n := by
    refine (sortedBuf_perm dout xy n).subset (List.mem_map.2 ⟨k, List.mem_range.2 hk, ?_⟩)
    rw [Nat.zero_add]
    rfl
  obtain ⟨i, -, hi⟩ := List.mem_map.1 hmem
  rw [← hi]
  exact tpReadAD_lt dout xy _

/-! ## The result -/

theorem keptSum_eq : keptSum dout xy n = (sortedBuf dout xy n 1).toNat + (sortedBuf dout xy n 2).toNat +
    (sortedBuf dout xy n 3).toNat := by
  simp [keptSum, lostVal, readTimes, List.range'_succ]

theorem keptSum_lt : keptSum dout xy n < 65536 := by
  have h₁ := sortedBuf_lt dout xy n (k := 1) (by decide)
  have h₂ := sortedBuf_lt dout xy n (k := 2) (by decide)
  have h₃ := sortedBuf_lt dout xy n (k := 3) (by decide)
  rw [keptSum_eq]
  omega

/-- **The mean of the elements that are kept.** -/
theorem tpReadXOY_toNat : (tpReadXOY dout xy n).toNat = keptSum dout xy n / 3 := by
  have hlt := keptSum_lt dout xy n
  have hread : tpReadXOY dout xy n = (0 + sortedBuf dout xy n 1 + sortedBuf dout xy n 2 +
      sortedBuf dout xy n 3) / UInt16.ofNat 3 := rfl
  rw [keptSum_eq] at hlt ⊢
  rw [hread, UInt16.toNat_div, UInt16.toNat_add, UInt16.toNat_add, UInt16.toNat_add,
    show (UInt16.ofNat 3).toNat = 3 from rfl, show (0 : UInt16).toNat = 0 from rfl, Nat.zero_add]
  omega

end

/-! ## What the filter yields -/

section
variable (dout : UInt8 → ℕ → UInt16) (xy : UInt8) (n : ℕ)

theorem sortedBuf_inOrder : InOrder (conversions dout xy n) (UInt16.toNat ∘ sortedBuf dout xy n) :=
  ⟨sortedBuf_perm dout xy n, sortedBuf_le dout xy n⟩

/-- The result, as the trimmed mean of the conversions. -/
theorem tpReadXOY_trimmed : (tpReadXOY dout xy n).toNat = ((conversions dout xy n).sum -
    lowest (conversions dout xy n) - highest (conversions dout xy n)) / 3 := by
  have h := sortedBuf_inOrder dout xy n
  have hdrop (a : ℕ → ℕ) : a 0 + a 1 + a 2 + a 3 + a 4 - a 0 - a 4 = a 1 + a 2 + a 3 := by omega
  rw [tpReadXOY_toNat, keptSum_eq, h.sum, h.lowest, h.highest, hdrop]
  rfl

/-- The result lies among the elements that are kept. -/
theorem tpReadXOY_between : (sortedBuf dout xy n 1).toNat ≤ (tpReadXOY dout xy n).toNat ∧
    (tpReadXOY dout xy n).toNat ≤ (sortedBuf dout xy n 3).toNat := by
  have h₁ := sortedBuf_le dout xy n (show 1 ≤ 2 by decide) (by decide)
  have h₂ := sortedBuf_le dout xy n (show 2 ≤ 3 by decide) (by decide)
  rw [tpReadXOY_toNat, keptSum_eq]
  omega

/-- The filter keeps the twelve bits of the converter. -/
theorem tpReadXOY_lt : (tpReadXOY dout xy n).toNat < 4096 :=
  Nat.lt_of_le_of_lt (tpReadXOY_between dout xy n).2 (sortedBuf_lt dout xy n (by decide))

variable {dout xy n}

theorem conversions_eraseIdx {dout' : UInt8 → ℕ → UInt16} {i : ℕ}
    (h : ∀ j < readTimes, j ≠ i → tpReadAD dout' xy (n + j) = tpReadAD dout xy (n + j)) :
    (conversions dout' xy n).eraseIdx i = (conversions dout xy n).eraseIdx i := by
  refine List.ext_getElem (by simp [conversions, List.length_eraseIdx]) fun j hj hj' => ?_
  have hlt : j < readTimes - 1 ∨ ¬ i < readTimes ∧ j < readTimes := by
    rw [List.length_eraseIdx, conversions, slice_length] at hj
    split at hj <;> omega
  simp only [List.getElem_eraseIdx, conversions, slice_getElem, Nat.zero_add]
  split
  · rw [h j (by omega) (by omega)]
  · rw [h (j + 1) (by omega) (by omega)]

end

/-- **The filter** yields the trimmed mean of its five conversions.  Their order does not matter;
the sum does not overflow; the result lies between the second smallest and the second largest; and
if any one of the conversions is disturbed, between the smallest and the largest of the others. -/
theorem filter_correct (dout : UInt8 → ℕ → UInt16) (xy : UInt8) (n : ℕ) :
    (tpReadXOY dout xy n).toNat = ((conversions dout xy n).sum - lowest (conversions dout xy n) -
        highest (conversions dout xy n)) / 3 ∧
      (∀ dout' xy' n', (conversions dout' xy' n').Perm (conversions dout xy n) →
        tpReadXOY dout' xy' n' = tpReadXOY dout xy n) ∧
      keptSum dout xy n < 65536 ∧
      ranked (conversions dout xy n) 1 ≤ (tpReadXOY dout xy n).toNat ∧
      (tpReadXOY dout xy n).toNat ≤ ranked (conversions dout xy n) 3 ∧
      ∀ dout', ∀ i < readTimes,
        (∀ j < readTimes, j ≠ i → tpReadAD dout' xy (n + j) = tpReadAD dout xy (n + j)) →
        lowest ((conversions dout xy n).eraseIdx i) ≤ (tpReadXOY dout' xy n).toNat ∧
          (tpReadXOY dout' xy n).toNat ≤ highest ((conversions dout xy n).eraseIdx i) := by
  have horder := sortedBuf_inOrder dout xy n
  have hbetween := tpReadXOY_between dout xy n
  refine ⟨tpReadXOY_trimmed dout xy n, ?_, keptSum_lt dout xy n, ?_, ?_, ?_⟩
  · intro dout' xy' n' hp
    -- both are in the same order once they are sorted
    have horder' := sortedBuf_inOrder dout' xy' n'
    have hsame : InOrder (conversions dout xy n) (UInt16.toNat ∘ sortedBuf dout' xy' n') :=
      ⟨horder'.perm.trans hp, horder'.le⟩
    have heq {k : ℕ} (hk : k < 5) := (hsame.ranked hk).symm.trans (horder.ranked hk)
    simp only [Function.comp_apply] at heq
    apply UInt16.toNat_inj.1
    rw [tpReadXOY_toNat, tpReadXOY_toNat, keptSum_eq, keptSum_eq, heq (by decide), heq (by decide),
      heq (by decide)]
  · rw [horder.ranked (by decide)]
    exact hbetween.1
  · rw [horder.ranked (by decide)]
    exact hbetween.2
  · intro dout' i hi hothers
    have horder' := sortedBuf_inOrder dout' xy n
    have hbetween' := tpReadXOY_between dout' xy n
    have hlen : i < (conversions dout' xy n).length := by rwa [conversions, slice_length]
    rw [← conversions_eraseIdx hothers]
    exact ⟨(horder'.lowest_eraseIdx_le i hlen).trans hbetween'.1,
      hbetween'.2.trans (horder'.le_highest_eraseIdx i hlen)⟩

end DataRecorder.Touch
