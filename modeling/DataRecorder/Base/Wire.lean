/-
  Wires: the level of a line as a function of time, and loops that poll it.

  * `wave ps rest` is the line that goes through the pulses `ps` and follows
    `rest` afterwards;
  * `polls line v n t` counts the polls, one per unit of time and at most `n`,
    that find the level `v` from time `t` on;
  * `At line t ps rest o`: at time `t` the line is `o` units into `wave ps rest`.

  `At.wait` says where a loop that waits for an edge stops, and `At.later` and
  `At.pass` where a blind delay ends.
-/
import Mathlib.Data.List.Basic
import Mathlib.Data.Nat.Basic
import Mathlib.Tactic.Common

namespace Base

abbrev Wire := ℕ → Bool

structure Pulse where
  level : Bool
  width : ℕ

/-- The pulses `ps` one after the other, then `rest`. -/
def wave : List Pulse → Wire → Wire
  | [], rest => rest
  | p :: ps, rest => fun t => if t < p.width then p.level else wave ps rest (t - p.width)

/-- The number of polls that find the level `v`, up to the first that does not. -/
def polls (line : Wire) (v : Bool) : ℕ → ℕ → ℕ
  | 0, _ => 0
  | n + 1, t => if line t = v then polls line v n (t + 1) + 1 else 0

/-- At time `t` the line is `o` units into the pulses `ps`. -/
def At (line : Wire) (t : ℕ) (ps : List Pulse) (rest : Wire) (o : ℕ) : Prop :=
  ∀ s, line (t + s) = wave ps rest (o + s)

variable {line rest : Wire} {t o n : ℕ} {p q : Pulse} {ps : List Pulse} {v : Bool}

theorem polls_of_ne (h : line t ≠ v) (n : ℕ) : polls line v n t = 0 := by
  cases n with
  | zero => rfl
  | succ n => rw [polls, if_neg h]

/-- A level that lasts for `k` polls and then changes. -/
theorem polls_eq {k : ℕ} (hk : k ≤ n) (hlow : ∀ s < k, line (t + s) = v) (hend : line (t + k) ≠ v) :
    polls line v n t = k := by
  induction k generalizing n t with
  | zero => exact polls_of_ne hend n
  | succ k ih =>
    obtain ⟨n, rfl⟩ : ∃ m, n = m + 1 := ⟨n - 1, by omega⟩
    have h0 : line t = v := hlow 0 (Nat.succ_pos k)
    rw [polls, if_pos h0, ih (Nat.le_of_succ_le_succ hk)]
    · intro s hs
      rw [Nat.add_assoc, Nat.add_comm 1 s]; exact hlow (s + 1) (Nat.succ_lt_succ hs)
    · rwa [Nat.add_assoc, Nat.add_comm 1 k]

theorem polls_const (h : ∀ s, line s = v) (n t : ℕ) : polls line v n t = n := by
  induction n generalizing t with
  | zero => rfl
  | succ n ih => rw [polls, if_pos (h t), ih]

namespace At

theorem start (ps : List Pulse) (rest : Wire) : At (wave ps rest) 0 ps rest 0 := fun _ => rfl

theorem later (h : At line t ps rest o) (n : ℕ) : At line (t + n) ps rest (o + n) := by
  intro s
  rw [Nat.add_assoc, h (n + s), Nat.add_assoc]

theorem level (h : At line t (p :: ps) rest o) (ho : o < p.width) : line t = p.level :=
  (h 0).trans (if_pos ho)

theorem pass (h : At line t (p :: ps) rest (p.width + o)) : At line t ps rest o := by
  intro s
  have hs : ¬ p.width + o + s < p.width := by omega
  rw [h s]
  simp only [wave, if_neg hs]
  congr 1; omega

/-- **Waiting for an edge**: the loop stops where the next pulse, of the other
    level, begins. -/
theorem wait (h : At line t (p :: q :: ps) rest o) (hv : p.level = v) (ho : o ≤ p.width)
    (hq : q.level ≠ v) (hw : 0 < q.width) (hn : p.width - o ≤ n) :
    polls line v n t = p.width - o ∧ At line (t + polls line v n t) (q :: ps) rest 0 := by
  have hedge : At line (t + (p.width - o)) (q :: ps) rest 0 := by
    have := h.later (p.width - o)
    rw [show o + (p.width - o) = p.width + 0 by omega] at this
    exact this.pass
  have hpolls : polls line v n t = p.width - o := by
    refine polls_eq hn (fun s hs => ?_) ?_
    · exact ((h.later s).level (by omega)).trans hv
    · rw [hedge.level hw]; exact hq
  exact ⟨hpolls, hpolls ▸ hedge⟩

/-- A loop that waits for the end of a level that is not there stops at once. -/
theorem no_wait (h : At line t (p :: ps) rest o) (ho : o < p.width) (hv : p.level ≠ v) (n : ℕ) :
    polls line v n t = 0 :=
  polls_of_ne (by rwa [h.level ho]) n

end At

end Base
