/-
  Loops with fuel.

  The body of a loop is a function that either goes on in a new state or leaves
  the loop with a result.  `loop body n s` runs at most `n` passes; `none` means
  that the fuel ran out.

  * `loop_total`: with an invariant and a variant that every pass decreases, the
    loop ends within as many passes as the variant allows, and its result meets
    the postcondition;
  * `loop_states`: a loop whose states are known runs through them;
  * `loop_poll_iff`, `loop_poll_isSome`: a loop that polls a signal ends if and
    only if the signal comes.
-/
import Mathlib.Data.List.Basic
import Mathlib.Data.Nat.Find
import Mathlib.Logic.Function.Iterate
import Mathlib.Tactic.Common

namespace Base

variable {σ ρ : Type*}

inductive Pass (σ ρ : Type*) where
  | next (s : σ)
  | done (r : ρ)

/-- At most `n` passes of the loop with body `body`. -/
def loop (body : σ → Pass σ ρ) : ℕ → σ → Option ρ
  | 0, _ => none
  | n + 1, s => match body s with
    | .next s' => loop body n s'
    | .done r => some r

variable {body : σ → Pass σ ρ}

theorem loop_next {s s' : σ} (h : body s = .next s') (n : ℕ) :
    loop body (n + 1) s = loop body n s' := by simp only [loop, h]

theorem loop_done {s : σ} {r : ρ} (h : body s = .done r) (n : ℕ) : loop body (n + 1) s = some r := by
  simp only [loop, h]

/-- **Total correctness of a loop**, from an invariant `I` and a variant `v`. -/
theorem loop_total {I : σ → Prop} {Q : ρ → Prop} (v : σ → ℕ)
    (hnext : ∀ s s', I s → body s = .next s' → I s' ∧ v s' < v s)
    (hdone : ∀ s r, I s → body s = .done r → Q r) :
    ∀ {n : ℕ} {s : σ}, I s → v s < n → ∃ r, loop body n s = some r ∧ Q r
  | 0, _, _, hv => absurd hv (Nat.not_lt_zero _)
  | n + 1, s, hs, hv => by
    cases hb : body s with
    | next s' =>
      obtain ⟨hs', hlt⟩ := hnext s s' hs hb
      obtain ⟨r, hr, hq⟩ := loop_total v hnext hdone (n := n) hs' (by omega)
      exact ⟨r, by rw [loop_next hb, hr], hq⟩
    | done r => exact ⟨r, loop_done hb n, hdone s r hs hb⟩

/-- **A loop through known states**: `n` passes, and the one that leaves it. -/
theorem loop_states {S : ℕ → σ} {r : ρ} {n : ℕ} (hnext : ∀ k < n, body (S k) = .next (S (k + 1)))
    (hdone : body (S n) = .done r) {fuel : ℕ} (hfuel : n < fuel) : loop body fuel (S 0) = some r := by
  induction n generalizing S fuel with
  | zero =>
    obtain ⟨fuel, rfl⟩ := Nat.exists_eq_add_one.2 hfuel
    exact loop_done hdone fuel
  | succ n ih =>
    obtain ⟨fuel, rfl⟩ := Nat.exists_eq_add_one.2 (Nat.zero_lt_of_lt hfuel)
    rw [loop_next (hnext 0 (Nat.succ_pos n))]
    exact ih (fun k hk => hnext (k + 1) (Nat.succ_lt_succ hk)) hdone (Nat.lt_of_succ_lt_succ hfuel)

theorem loop_forever (hnext : ∀ s, ∃ s', body s = .next s') : ∀ (n : ℕ) (s : σ), loop body n s = none
  | 0, _ => rfl
  | n + 1, s => by
    obtain ⟨s', hs'⟩ := hnext s
    rw [loop_next hs', loop_forever hnext n s']

/-! ## Polling -/

section
variable (ready : ℕ → Prop) [DecidablePred ready] (f : σ → σ)

/-- The body of a loop that goes on with `f` until the signal `ready` is there.  The number is that
of the times it was polled before. -/
def poll (s : ℕ × σ) : Pass (ℕ × σ) (ℕ × σ) := if ready s.1 then .done s else .next (s.1 + 1, f s.2)

variable {ready f}

/-- **A polling loop** ends when the signal comes. -/
theorem loop_poll_iff {fuel n : ℕ} {s : σ} {r : ℕ × σ} : loop (poll ready f) fuel (n, s) = some r ↔
    ∃ k < fuel, ready (n + k) ∧ (∀ j < k, ¬ ready (n + j)) ∧ r = (n + k, f^[k] s) := by
  induction fuel generalizing n s with
  | zero => simp [loop]
  | succ fuel ih =>
    by_cases hn : ready n
    · have hdone : poll ready f (n, s) = .done (n, s) := if_pos hn
      rw [loop_done hdone]
      constructor
      · rintro h
        exact ⟨0, Nat.succ_pos _, hn, fun j hj => absurd hj (Nat.not_lt_zero j), (Option.some.inj h).symm⟩
      · rintro ⟨k, -, -, hfirst, rfl⟩
        cases k with
        | zero => rfl
        | succ k => exact absurd hn (hfirst 0 (Nat.succ_pos k))
    · have hnext : poll ready f (n, s) = .next (n + 1, f s) := if_neg hn
      have hindex (k : ℕ) : n + 1 + k = n + (k + 1) := by omega
      rw [loop_next hnext, ih]
      simp only [hindex]
      constructor
      · rintro ⟨k, hk, hready, hfirst, rfl⟩
        refine ⟨k + 1, Nat.succ_lt_succ hk, hready, fun j hj => ?_, rfl⟩
        cases j with
        | zero => exact hn
        | succ j => exact hfirst j (Nat.lt_of_succ_lt_succ hj)
      · rintro ⟨k, hk, hready, hfirst, rfl⟩
        cases k with
        | zero => exact absurd hready hn
        | succ k =>
          exact ⟨k, Nat.lt_of_succ_lt_succ hk, hready,
            fun j hj => hfirst (j + 1) (Nat.succ_lt_succ hj), rfl⟩

theorem loop_poll_isSome {fuel : ℕ} {s : σ} :
    (loop (poll ready f) fuel (0, s)).isSome ↔ ∃ k < fuel, ready k := by
  rw [Option.isSome_iff_exists]
  constructor
  · rintro ⟨r, h⟩
    obtain ⟨k, hk, hready, -, -⟩ := loop_poll_iff.1 h
    exact ⟨k, hk, by rwa [Nat.zero_add] at hready⟩
  · rintro ⟨k, hk, hready⟩
    have hex : ∃ k, ready (0 + k) := ⟨k, by rwa [Nat.zero_add]⟩
    have hle : Nat.find hex ≤ k := Nat.find_min' hex (by rwa [Nat.zero_add])
    exact ⟨_, loop_poll_iff.2 ⟨Nat.find hex, Nat.lt_of_le_of_lt hle hk, Nat.find_spec hex,
      fun j hj => Nat.find_min hex hj, rfl⟩⟩

end

end Base
