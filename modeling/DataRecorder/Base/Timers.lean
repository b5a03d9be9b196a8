/-
  Periodic tasks, each kind of them with one handle.

  `start` creates a task if the handle of its kind is free, `stop` deletes the task
  that the handle names and frees it.

  * `WellFormed`: every live task is the one that the handle of its kind names, and no
    two are of one kind; kept by `start` and `stop`.
-/
import Mathlib.Data.List.Pairwise
import Mathlib.Logic.Function.Basic

namespace Base

structure Timers (κ : Type*) where
  /-- the live tasks -/
  live : List (ℕ × κ)
  handle : κ → Option ℕ
  next : ℕ

namespace Timers

variable {κ : Type*}

def empty : Timers κ := ⟨[], fun _ => none, 0⟩

structure WellFormed (T : Timers κ) : Prop where
  handle : ∀ t ∈ T.live, T.handle t.2 = some t.1
  kinds : T.live.Pairwise fun t u => t.2 ≠ u.2

theorem wellFormed_empty : (empty : Timers κ).WellFormed :=
  ⟨fun _ ht => absurd ht List.not_mem_nil, List.Pairwise.nil⟩

variable [DecidableEq κ]

def start (T : Timers κ) (k : κ) : Timers κ :=
  match T.handle k with
  | some _ => T
  | none => ⟨(T.next, k) :: T.live, Function.update T.handle k (some T.next), T.next + 1⟩

def stop (T : Timers κ) (k : κ) : Timers κ :=
  match T.handle k with
  | some t => { T with live := T.live.filter (·.1 ≠ t), handle := Function.update T.handle k none }
  | none => T

variable {T : Timers κ} {k k' : κ}

theorem start_handle_ne (hk : k' ≠ k) : (T.start k).handle k' = T.handle k' := by
  unfold start
  split
  · rfl
  · exact Function.update_of_ne hk _ _

theorem stop_handle_ne (hk : k' ≠ k) : (T.stop k).handle k' = T.handle k' := by
  unfold stop
  split
  · exact Function.update_of_ne hk _ _
  · rfl

theorem stop_handle_self : (T.stop k).handle k = none := by
  unfold stop
  split
  · exact Function.update_self _ _ _
  · assumption

theorem WellFormed.start (h : T.WellFormed) : (T.start k).WellFormed := by
  unfold Timers.start
  split
  · exact h
  case h_2 hk =>
    -- a task of kind `k` would have been named by the free handle
    have hne : ∀ t ∈ T.live, t.2 ≠ k := fun t ht e => by
      have := h.handle t ht
      rw [e, hk] at this
      cases this
    refine ⟨fun t ht => ?_, List.pairwise_cons.2 ⟨fun t ht => (hne t ht).symm, h.kinds⟩⟩
    rcases List.mem_cons.1 ht with rfl | ht
    · exact Function.update_self _ _ _
    · exact (Function.update_of_ne (hne t ht) _ _).trans (h.handle t ht)

theorem WellFormed.stop (h : T.WellFormed) : (T.stop k).WellFormed := by
  unfold Timers.stop
  split
  case h_1 t₀ hk =>
    refine ⟨fun t ht => ?_, h.kinds.filter _⟩
    obtain ⟨ht, hne⟩ := List.mem_filter.1 ht
    have hk' : t.2 ≠ k := fun e => by
      have := h.handle t ht
      rw [e, hk] at this
      simp [Option.some.inj this] at hne
    exact (Function.update_of_ne hk' _ _).trans (h.handle t ht)
  · exact h

end Timers

end Base
