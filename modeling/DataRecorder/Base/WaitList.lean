/-
  Threads that wait for something that is counted.

  A thread is suspended on the list (`waits`), has been resumed and not yet looked
  again (`woken`), or does something else (`out`).  `WaitList l stage n` says that
  the list `l` holds the suspended threads, and that while it holds any, there are
  at least as many woken threads as the `n` things to be had: nothing is left lying
  while all who want it sleep.

  * `sleep`: a thread that finds nothing is suspended;
  * `wake`, `wake_nil`: one thing more, and the first of the list is resumed;
  * `use`: a thread takes one thing, woken or not;
  * `quit`: a suspended thread is taken off the list.
-/
import Mathlib.Data.Fintype.Card
import Mathlib.Data.List.Nodup
import Mathlib.Tactic.Common

namespace Base

inductive Stage where
  | out
  | waits
  | woken
  deriving DecidableEq

variable {ι : Type*} [Fintype ι]

/-- The number of threads that were resumed and have not looked again. -/
def woken (stage : ι → Stage) : ℕ := (Finset.univ.filter fun i => stage i = .woken).card

structure WaitList (l : List ι) (stage : ι → Stage) (n : ℕ) : Prop where
  nodup : l.Nodup
  mem : ∀ i, i ∈ l ↔ stage i = .waits
  enough : l ≠ [] → n ≤ woken stage

variable {l : List ι} {stage : ι → Stage} {n : ℕ} {i : ι}

theorem WaitList.wake_nil (h : WaitList [] stage n) : WaitList [] stage (n + 1) :=
  ⟨h.nodup, h.mem, fun hl => absurd rfl hl⟩

variable [DecidableEq ι]

theorem le_woken_update (c : Stage) : woken stage ≤ woken (Function.update stage i c) + 1 := by
  have hsub : (Finset.univ.filter fun j => stage j = .woken) ⊆
      insert i (Finset.univ.filter fun j => Function.update stage i c j = .woken) := by
    intro j hj
    rw [Finset.mem_filter_univ] at hj
    rw [Finset.mem_insert, Finset.mem_filter_univ]
    by_cases hji : j = i
    · exact Or.inl hji
    · exact Or.inr (by rwa [Function.update_of_ne hji])
  exact (Finset.card_le_card hsub).trans (Finset.card_insert_le _ _)

theorem woken_le_update (h : stage i ≠ .woken) (c : Stage) : woken stage ≤ woken (Function.update stage i c) := by
  refine Finset.card_le_card fun j hj => ?_
  rw [Finset.mem_filter_univ] at hj ⊢
  have hji : j ≠ i := fun he => h (he ▸ hj)
  rwa [Function.update_of_ne hji]

theorem woken_update_woken (h : stage i ≠ .woken) : woken (Function.update stage i .woken) = woken stage + 1 := by
  have heq : (Finset.univ.filter fun j => Function.update stage i .woken j = .woken) =
      insert i (Finset.univ.filter fun j => stage j = .woken) := by
    ext j
    rw [Finset.mem_insert, Finset.mem_filter_univ, Finset.mem_filter_univ]
    by_cases hji : j = i
    · subst hji
      simp
    · rw [Function.update_of_ne hji]
      simp [hji]
  rw [woken, heq, Finset.card_insert_of_notMem (by simpa using h), woken]

namespace WaitList

/-- The list after a thread has moved that is not on it before or after. -/
theorem mem_update (h : WaitList l stage n) (hi : stage i ≠ .waits) {c : Stage} (hc : c ≠ .waits) (j : ι) :
    j ∈ l ↔ Function.update stage i c j = .waits := by
  rw [h.mem]
  by_cases hji : j = i
  · subst hji
    simp [hi, hc]
  · rw [Function.update_of_ne hji]

theorem use (h : WaitList l stage n) (hi : stage i ≠ .waits) : WaitList l (Function.update stage i .out) (n - 1) := by
  refine ⟨h.nodup, h.mem_update hi (by decide), fun hl => ?_⟩
  have henough := h.enough hl
  have hwoken : woken stage ≤ woken (Function.update stage i .out) + 1 := le_woken_update .out
  omega

theorem sleep (h : WaitList l stage 0) (hi : stage i ≠ .waits) :
    WaitList (l ++ [i]) (Function.update stage i .waits) 0 := by
  refine ⟨h.nodup.append (List.nodup_singleton i) ?_, fun j => ?_, fun _ => Nat.zero_le _⟩
  · rw [List.disjoint_singleton, h.mem]
    exact hi
  · rw [List.mem_append, List.mem_singleton, h.mem]
    by_cases hji : j = i
    · subst hji
      simp
    · rw [Function.update_of_ne hji]
      simp [hji]

theorem wake (h : WaitList (i :: l) stage n) : WaitList l (Function.update stage i .woken) (n + 1) := by
  have hi : stage i = .waits := (h.mem i).1 List.mem_cons_self
  obtain ⟨hil, hnd⟩ := List.nodup_cons.1 h.nodup
  refine ⟨hnd, fun j => ?_, fun _ => ?_⟩
  · by_cases hji : j = i
    · subst hji
      simp [hil]
    · rw [Function.update_of_ne hji, ← h.mem, List.mem_cons, or_iff_right hji]
  · rw [woken_update_woken (by rw [hi]; decide)]
    exact Nat.succ_le_succ (h.enough (List.cons_ne_nil i l))

theorem quit (h : WaitList l stage n) (hi : stage i = .waits) :
    WaitList (l.erase i) (Function.update stage i .out) n := by
  refine ⟨h.nodup.erase i, fun j => ?_, fun hl => ?_⟩
  · rw [h.nodup.mem_erase_iff, h.mem]
    by_cases hji : j = i
    · subst hji
      simp
    · rw [Function.update_of_ne hji]
      simp [hji]
  · have hl' : l ≠ [] := fun he => hl (by rw [he]; rfl)
    exact (h.enough hl').trans (woken_le_update (by rw [hi]; decide) .out)

end WaitList

end Base
