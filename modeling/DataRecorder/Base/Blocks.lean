/-
  A stretch of memory cut into blocks, one behind the other, used or free.

  The position of a block is what is before it.  `spots p bs` are the used blocks of
  the stretch `bs` that starts at `p`, with their positions and lengths; `firstFree`
  is the position of the first free block, or the end.

  * `spots_apart`: a used block lies on one side of every cut;
  * `firstFree_append`: the first free block of a stretch in two parts;
  * `coalesced_iff`: two free blocks never meet, around one block.
-/
import Mathlib.Data.List.Basic
import Mathlib.Data.List.Chain
import Mathlib.Tactic.Common

namespace Base

structure Block where
  len : ℕ
  used : Bool
  deriving DecidableEq

def extent : List Block → ℕ
  | [] => 0
  | b :: bs => b.len + extent bs

/-- The position of the last block of a stretch at `p`, or `q` if there is none. -/
def lastStart (q p : ℕ) : List Block → ℕ
  | [] => q
  | b :: bs => lastStart p (p + b.len) bs

def spots (p : ℕ) : List Block → List (ℕ × ℕ)
  | [] => []
  | b :: bs => (if b.used then [(p, b.len)] else []) ++ spots (p + b.len) bs

def firstFree (p : ℕ) : List Block → ℕ
  | [] => p
  | b :: bs => if b.used then firstFree (p + b.len) bs else p

def usedLen : List Block → ℕ
  | [] => 0
  | b :: bs => (if b.used then b.len else 0) + usedLen bs

def AllUsed (bs : List Block) : Prop := ∀ b ∈ bs, b.used = true

instance (bs : List Block) : Decidable (AllUsed bs) := inferInstanceAs (Decidable (∀ b ∈ bs, b.used = true))

/-- Of two neighbours one is used. -/
def Coalesced (bs : List Block) : Prop := bs.IsChain fun a b => a.used = true ∨ b.used = true

variable {p q : ℕ} {b : Block} {xs ys bs : List Block}

@[simp] theorem extent_append : extent (xs ++ ys) = extent xs + extent ys := by
  induction xs with
  | nil => simp [extent]
  | cons x xs ih => simp [extent, ih, Nat.add_assoc]

@[simp] theorem usedLen_append : usedLen (xs ++ ys) = usedLen xs + usedLen ys := by
  induction xs with
  | nil => simp [usedLen]
  | cons x xs ih => simp [usedLen, ih, Nat.add_assoc]

theorem spots_append : spots p (xs ++ ys) = spots p xs ++ spots (p + extent xs) ys := by
  induction xs generalizing p with
  | nil => simp [spots, extent]
  | cons x xs ih => simp [spots, extent, ih, Nat.add_assoc]

theorem lastStart_append : lastStart q p (xs ++ ys) = lastStart (lastStart q p xs) (p + extent xs) ys := by
  induction xs generalizing p q with
  | nil => simp [lastStart, extent]
  | cons x xs ih => simp [lastStart, extent, ih, Nat.add_assoc]

theorem lastStart_concat : lastStart q p (xs ++ [b]) = p + extent xs := by
  rw [lastStart_append]
  rfl

theorem usedLen_le : usedLen bs ≤ extent bs := by
  induction bs with
  | nil => exact Nat.le_refl 0
  | cons b bs ih =>
    rw [usedLen, extent]
    split_ifs <;> omega

/-! ## Used blocks -/

theorem spots_bounds {x n : ℕ} (h : (x, n) ∈ spots p bs) : p ≤ x ∧ x + n ≤ p + extent bs := by
  induction bs generalizing p with
  | nil => simp [spots] at h
  | cons b bs ih =>
    rw [spots, List.mem_append] at h
    rw [extent]
    rcases h with h | h
    · split_ifs at h
      · obtain ⟨rfl, rfl⟩ : x = p ∧ n = b.len := by simpa using h
        omega
      · simp at h
    · have := ih h
      omega

theorem spots_apart {x n : ℕ} (h : (x, n) ∈ spots p (xs ++ ys)) : x + n ≤ p + extent xs ∨ p + extent xs ≤ x := by
  rw [spots_append, List.mem_append] at h
  rcases h with h | h
  · exact Or.inl (spots_bounds h).2
  · exact Or.inr (spots_bounds h).1

theorem mem_spots {x n : ℕ} : (x, n) ∈ spots p bs ↔
    ∃ xs b ys, bs = xs ++ b :: ys ∧ b.used = true ∧ x = p + extent xs ∧ n = b.len := by
  constructor
  · intro h
    induction bs generalizing p with
    | nil => simp [spots] at h
    | cons b bs ih =>
      rw [spots, List.mem_append] at h
      rcases h with h | h
      · split_ifs at h with hb
        · obtain ⟨rfl, rfl⟩ : x = p ∧ n = b.len := by simpa using h
          exact ⟨[], b, bs, rfl, hb, rfl, rfl⟩
        · simp at h
      · obtain ⟨xs, c, ys, rfl, hc, rfl, rfl⟩ := ih h
        exact ⟨b :: xs, c, ys, rfl, hc, by rw [extent]; omega, rfl⟩
  · rintro ⟨xs, b, ys, rfl, hb, rfl, rfl⟩
    rw [spots_append, spots, if_pos hb]
    simp

theorem spots_pairwise : (spots p bs).Pairwise fun a b => a.1 + a.2 ≤ b.1 := by
  induction bs generalizing p with
  | nil => exact .nil
  | cons b bs ih =>
    rw [spots, List.pairwise_append]
    refine ⟨?_, ih, ?_⟩
    · split_ifs <;> simp
    · rintro ⟨x, n⟩ hx ⟨y, m⟩ hy
      split_ifs at hx
      · obtain ⟨rfl, rfl⟩ : x = p ∧ n = b.len := by simpa using hx
        exact (spots_bounds hy).1
      · simp at hx

/-- Used blocks do not overlap, in whatever order they are taken. -/
theorem spots_disjoint {l : List (ℕ × ℕ)} (h : (spots p bs).Perm l) :
    l.Pairwise fun a b => a.1 + a.2 ≤ b.1 ∨ b.1 + b.2 ≤ a.1 :=
  (h.pairwise_iff fun hab => hab.symm).1 (spots_pairwise.imp Or.inl)

theorem spots_nil (h : spots p bs = []) : ∀ b ∈ bs, b.used = false := by
  intro b hb
  obtain ⟨xs, ys, rfl⟩ := List.append_of_mem hb
  rw [Bool.eq_false_iff]
  intro hu
  have hmem : (p + extent xs, b.len) ∈ spots p (xs ++ b :: ys) := mem_spots.2 ⟨xs, b, ys, rfl, hu, rfl, rfl⟩
  rw [h] at hmem
  cases hmem

/-! ## The first free block -/

theorem le_firstFree : p ≤ firstFree p bs := by
  induction bs generalizing p with
  | nil => exact Nat.le_refl p
  | cons b bs ih =>
    rw [firstFree]
    split_ifs
    · exact (Nat.le_add_right p b.len).trans ih
    · exact Nat.le_refl p

theorem firstFree_le : firstFree p bs ≤ p + extent bs := by
  induction bs generalizing p with
  | nil => exact Nat.le_refl p
  | cons b bs ih =>
    rw [firstFree, extent]
    split_ifs
    · rw [← Nat.add_assoc]
      exact ih
    · omega

theorem firstFree_append (p : ℕ) (xs ys : List Block) :
    firstFree p (xs ++ ys) = if AllUsed xs then firstFree (p + extent xs) ys else firstFree p xs := by
  induction xs generalizing p with
  | nil => simp [AllUsed, extent]
  | cons x xs ih =>
    rw [List.cons_append, firstFree, firstFree, ih, extent]
    by_cases hx : x.used = true <;> simp [AllUsed, hx, Nat.add_assoc]

/-- Where all blocks before a free one are used, it is the first. -/
theorem firstFree_free (hb : b.used = false) : firstFree p (xs ++ b :: ys) =
    if AllUsed xs then p + extent xs else firstFree p xs := by
  rw [firstFree_append, firstFree, hb]
  rfl

theorem firstFree_lt (h : ¬ AllUsed bs) (hpos : ∀ b ∈ bs, 0 < b.len) : firstFree p bs < p + extent bs := by
  induction bs generalizing p with
  | nil => exact absurd (fun b hb => by cases hb) h
  | cons b bs ih =>
    have hb := hpos b List.mem_cons_self
    rw [firstFree, extent]
    split_ifs with hu
    · rw [← Nat.add_assoc]
      refine ih (fun hall => h ?_) fun c hc => hpos c (List.mem_cons_of_mem b hc)
      exact fun c hc => (List.mem_cons.1 hc).elim (fun he => he ▸ hu) (hall c)
    · omega

/-- A used block, or the end of it, becomes free. -/
theorem firstFree_lower {l n : ℕ} (zs ys : List Block) (hpos : ∀ b ∈ xs, 0 < b.len) (hz : AllUsed zs)
    (hl : extent zs < l) : firstFree 0 (xs ++ zs ++ ⟨n, false⟩ :: ys) =
      if extent (xs ++ zs) < firstFree 0 (xs ++ ⟨l, true⟩ :: ys) then extent (xs ++ zs)
      else firstFree 0 (xs ++ ⟨l, true⟩ :: ys) := by
  rw [firstFree_free rfl, firstFree_append 0 xs (⟨l, true⟩ :: ys), firstFree_append 0 xs zs, extent_append]
  by_cases hx : AllUsed xs
  · have hall : AllUsed (xs ++ zs) := fun b hb => (List.mem_append.1 hb).elim (hx b) (hz b)
    have hle : 0 + extent xs + l ≤ firstFree (0 + extent xs + l) ys := le_firstFree
    have hff : firstFree (0 + extent xs) (⟨l, true⟩ :: ys) = firstFree (0 + extent xs + l) ys := rfl
    rw [if_pos hall, if_pos hx, hff, if_pos (by omega), Nat.zero_add]
  · have hall : ¬ AllUsed (xs ++ zs) := fun h => hx fun b hb => h b (List.mem_append_left zs hb)
    have hlt := firstFree_lt (p := 0) hx hpos
    simp only [if_neg hall, if_neg hx]
    rw [if_neg (by omega)]

/-- The stretch is cut at its first free block. -/
theorem exists_firstFree (p : ℕ) (bs : List Block) : ∃ xs ys, bs = xs ++ ys ∧ AllUsed xs ∧
    firstFree p bs = p + extent xs ∧ ∀ b ∈ ys.head?, b.used = false := by
  induction bs generalizing p with
  | nil => exact ⟨[], [], rfl, fun b hb => (by cases hb), rfl, fun b hb => (by cases hb)⟩
  | cons b bs ih =>
    by_cases hb : b.used = true
    · obtain ⟨xs, ys, rfl, hall, hff, hhead⟩ := ih (p + b.len)
      refine ⟨b :: xs, ys, rfl, ?_, ?_, hhead⟩
      · exact fun c hc => (List.mem_cons.1 hc).elim (fun he => he ▸ hb) (hall c)
      · rw [firstFree, if_pos hb, hff, extent, Nat.add_assoc]
    · refine ⟨[], b :: bs, rfl, fun c hc => (by cases hc), by rw [firstFree, if_neg hb]; rfl, ?_⟩
      simpa using hb

/-! ## Neighbours -/

theorem coalesced_iff : Coalesced (xs ++ b :: ys) ↔ Coalesced xs ∧ Coalesced ys ∧
    (∀ a ∈ xs.getLast?, a.used = true ∨ b.used = true) ∧ ∀ c ∈ ys.head?, b.used = true ∨ c.used = true := by
  rw [Coalesced, List.isChain_append, List.isChain_cons]
  simp only [List.head?_cons, Option.mem_some_iff, forall_eq', Coalesced]
  tauto

end Base
