/-
  Singly linked lists in memory.

  `next` gives the link of each cell.  `Chain next h l` says that the cells reached
  from the head `h` are those of `l`, in order, and that the last one has no link.

  * `Chain.congr`: only the links of its cells matter;
  * `Chain.update`: a cell outside the list may be linked anywhere;
  * `Chain.push`, `Chain.pop`: at the head;
  * `Chain.snoc`: at the tail, where the last cell is known.

  `Held n slot l` is a pool of the cells `0`, ..., `n - 1` shared by several owners:
  each cell is on the lists `l` or in the hands of one owner.  `Held.take` and
  `Held.give` move a cell.
-/
import Mathlib.Data.List.Basic
import Mathlib.Data.List.Nodup
import Mathlib.Data.List.Perm.Subperm
import Mathlib.Tactic.Common

namespace Base

variable {α : Type*}

def Chain (next : α → Option α) : Option α → List α → Prop
  | h, [] => h = none
  | h, a :: l => h = some a ∧ Chain next (next a) l

namespace Chain
variable {next : α → Option α} {h : Option α} {a : α} {l : List α}

theorem head_eq (hc : Chain next h l) : h = l.head? := by
  cases l with
  | nil => exact hc
  | cons a l => exact hc.1

theorem eq_nil (hc : Chain next none l) : l = [] := by
  cases l with
  | nil => rfl
  | cons a l => exact absurd hc.1 (by simp)

/-- The first cell is taken off. -/
theorem pop (hc : Chain next (some a) l) : ∃ l', l = a :: l' ∧ Chain next (next a) l' := by
  cases l with
  | nil => exact absurd hc (by simp [Chain])
  | cons b l =>
    obtain ⟨hb, htail⟩ := hc
    cases hb
    exact ⟨l, rfl, htail⟩

/-- A head leads to one list only. -/
theorem unique : ∀ {l l' : List α} {h : Option α}, Chain next h l → Chain next h l' → l = l'
  | [], l', _, hc, hc' => by
    cases hc
    exact hc'.eq_nil.symm
  | a :: l, l', _, hc, hc' => by
    obtain ⟨rfl, htail⟩ := hc
    obtain ⟨l'', rfl, htail'⟩ := hc'.pop
    rw [unique htail htail']

/-- A list depends on the links of its cells only. -/
theorem congr {next' : α → Option α} : ∀ {l : List α} {h : Option α}, Chain next h l → (∀ b ∈ l, next' b = next b) →
    Chain next' h l
  | [], _, hc, _ => hc
  | b :: l, _, hc, hn => by
    refine ⟨hc.1, ?_⟩
    rw [hn b List.mem_cons_self]
    exact hc.2.congr fun c hm => hn c (List.mem_cons_of_mem b hm)

variable [DecidableEq α]

theorem update {v : Option α} (hc : Chain next h l) (ha : a ∉ l) : Chain (Function.update next a v) h l := by
  refine hc.congr fun b hb => Function.update_of_ne ?_ ..
  rintro rfl
  exact ha hb

/-- A cell outside the list is put in front of it. -/
theorem push (hc : Chain next h l) (ha : a ∉ l) : Chain (Function.update next a h) (some a) (a :: l) := by
  refine ⟨rfl, ?_⟩
  rw [Function.update_self]
  exact hc.update ha

/-- The last cell is linked to one outside the list. -/
theorem snoc {b : α} (hb : next b = none) : ∀ {l : List α} {h : Option α}, Chain next h l → l.Nodup → b ∉ l →
    ∀ {t}, l.getLast? = some t → Chain (Function.update next t (some b)) h (l ++ [b])
  | [], _, _, _, _, _, ht => absurd ht (by simp)
  | [c], _, hc, _, hbl, t, ht => by
    obtain rfl : c = t := by simpa using ht
    have hne : b ≠ c := by simpa using hbl
    refine ⟨hc.1, ?_⟩
    rw [Function.update_self]
    exact ⟨rfl, by rw [Function.update_of_ne hne, hb]; rfl⟩
  | c :: d :: l, _, hc, hnd, hbl, t, ht => by
    obtain ⟨hcl, hnd⟩ := List.nodup_cons.1 hnd
    have ht' : (d :: l).getLast? = some t := by rwa [List.getLast?_cons_cons] at ht
    have htc : c ≠ t := fun he => hcl (he ▸ List.mem_of_getLast? ht')
    refine ⟨hc.1, ?_⟩
    rw [Function.update_of_ne htc]
    exact snoc hb hc.2 hnd (fun hm => hbl (List.mem_cons_of_mem c hm)) ht'

end Chain

/-! ## Cells in hand -/

variable {ι : Type*}

structure Held (n : ℕ) (slot : ι → Option ℕ) (l : List ℕ) : Prop where
  mem : ∀ x, x < n ↔ x ∈ l ∨ ∃ i, slot i = some x
  nodup : l.Nodup
  apart : ∀ i x, slot i = some x → x ∉ l
  owner : ∀ i j x, slot i = some x → slot j = some x → i = j

namespace Held
variable {n : ℕ} {slot : ι → Option ℕ} {l l' : List ℕ} {i : ι} {x : ℕ}

theorem length_le (h : Held n slot l) : l.length ≤ n := by
  have hsub : l ⊆ List.range n := fun x hx => List.mem_range.2 ((h.mem x).2 (Or.inl hx))
  simpa using (List.subperm_of_subset h.nodup hsub).length_le

variable [DecidableEq ι]

theorem take (h : Held n slot l) (hl : l.Perm (x :: l')) (hi : slot i = none) :
    Held n (Function.update slot i (some x)) l' := by
  have hx : x ∉ l' := (List.nodup_cons.1 (hl.nodup_iff.1 h.nodup)).1
  have hmem (y : ℕ) : y ∈ l ↔ y = x ∨ y ∈ l' := by rw [hl.mem_iff, List.mem_cons]
  have hold {j : ι} {y : ℕ} (hj : Function.update slot i (some x) j = some y) :
      (j = i ∧ y = x) ∨ (j ≠ i ∧ slot j = some y) := by
    by_cases hji : j = i
    · subst hji
      rw [Function.update_self] at hj
      exact Or.inl ⟨rfl, (Option.some.inj hj).symm⟩
    · rw [Function.update_of_ne hji] at hj
      exact Or.inr ⟨hji, hj⟩
  refine ⟨fun y => ?_, (List.nodup_cons.1 (hl.nodup_iff.1 h.nodup)).2, fun j y hj => ?_, fun j k y hj hk => ?_⟩
  · rw [h.mem, hmem]
    constructor
    · rintro ((rfl | hy) | ⟨j, hj⟩)
      · exact Or.inr ⟨i, Function.update_self ..⟩
      · exact Or.inl hy
      · have hji : j ≠ i := fun he => by rw [he, hi] at hj; cases hj
        exact Or.inr ⟨j, by rw [Function.update_of_ne hji, hj]⟩
    · rintro (hy | ⟨j, hj⟩)
      · exact Or.inl (Or.inr hy)
      · rcases hold hj with ⟨-, rfl⟩ | ⟨-, hj⟩
        · exact Or.inl (Or.inl rfl)
        · exact Or.inr ⟨j, hj⟩
  · rcases hold hj with ⟨-, rfl⟩ | ⟨-, hj⟩
    · exact hx
    · exact fun hy => h.apart j y hj ((hmem y).2 (Or.inr hy))
  · have hxl : x ∈ l := (hmem x).2 (Or.inl rfl)
    rcases hold hj with ⟨rfl, rfl⟩ | ⟨-, hj'⟩
    · rcases hold hk with ⟨rfl, -⟩ | ⟨-, hk'⟩
      · rfl
      · exact absurd hxl (h.apart k _ hk')
    · rcases hold hk with ⟨-, rfl⟩ | ⟨-, hk'⟩
      · exact absurd hxl (h.apart j _ hj')
      · exact h.owner j k y hj' hk'

theorem give (h : Held n slot l) (hi : slot i = some x) (hl : l'.Perm (x :: l)) :
    Held n (Function.update slot i none) l' := by
  have hmem (y : ℕ) : y ∈ l' ↔ y = x ∨ y ∈ l := by rw [hl.mem_iff, List.mem_cons]
  have hold {j : ι} {y : ℕ} (hj : Function.update slot i none j = some y) : j ≠ i ∧ slot j = some y := by
    by_cases hji : j = i
    · rw [hji, Function.update_self] at hj
      cases hj
    · exact ⟨hji, by rwa [Function.update_of_ne hji] at hj⟩
  refine ⟨fun y => ?_, hl.nodup_iff.2 (List.nodup_cons.2 ⟨h.apart i x hi, h.nodup⟩), fun j y hj => ?_,
    fun j k y hj hk => h.owner j k y (hold hj).2 (hold hk).2⟩
  · rw [h.mem, hmem]
    constructor
    · rintro (hy | ⟨j, hj⟩)
      · exact Or.inl (Or.inr hy)
      · by_cases hji : j = i
        · rw [hji, hi] at hj
          exact Or.inl (Or.inl (Option.some.inj hj).symm)
        · exact Or.inr ⟨j, by rw [Function.update_of_ne hji, hj]⟩
    · rintro ((rfl | hy) | ⟨j, hj⟩)
      · exact Or.inr ⟨i, hi⟩
      · exact Or.inl hy
      · exact Or.inr ⟨j, (hold hj).2⟩
  · obtain ⟨hji, hj⟩ := hold hj
    rw [hmem]
    rintro (rfl | hy)
    · exact hji (h.owner j i _ hj hi)
    · exact h.apart j y hj hy

/-- A cell in hand is not counted. -/
theorem length_lt (h : Held n slot l) (hi : slot i = some x) : l.length < n :=
  (h.give hi (List.Perm.refl (x :: l))).length_le

end Held

end Base
