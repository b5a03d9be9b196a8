/-
  Transition systems driven by a list of actions.

  `step a s` is the state after the action `a`, or `none` where `a` is not
  enabled.  `run` is the execution of a list of actions.  A guard `G` on states
  and actions restricts the runs: `Guarded G s as` says that every action of the
  run meets `G` in the state it is taken in.

  * `Guarded.run_inv`: a property kept by the steps that meet the guard holds
    after every run whose steps all meet it;
  * `Guarded.run_total`: where no such step gets stuck, neither does the run;
  * `run_refines`: steps that follow a function make runs that follow it;
  * `run_tally`: a number that grows by one at the steps that meet `G`, and at no
    other, is their number `tally`.
-/
import Mathlib.Data.List.Basic
import Mathlib.Tactic.Common

namespace Base

variable {σ α : Type*} (step : α → σ → Option σ)

/-- The state after the actions `as`, if each is enabled in turn. -/
def run : List α → σ → Option σ
  | [], s => some s
  | a :: as, s => (step a s).bind (run as)

/-- Every action of the run meets `G` in the state it is taken in. -/
def Guarded (G : σ → α → Prop) : σ → List α → Prop
  | _, [] => True
  | s, a :: as => G s a ∧ ∀ s', step a s = some s' → Guarded G s' as

theorem run_cons (a : α) (as : List α) (s : σ) : run step (a :: as) s = (step a s).bind (run step as) := rfl

variable {step}

theorem run_cons_some {a : α} {as : List α} {s t : σ} :
    run step (a :: as) s = some t ↔ ∃ s', step a s = some s' ∧ run step as s' = some t := by
  rw [run_cons, Option.bind_eq_some_iff]

theorem run_one {a : α} {s t : σ} (h : run step [a] s = some t) : step a s = some t := by
  obtain ⟨t', ht, ht'⟩ := run_cons_some.1 h
  cases ht'
  exact ht

theorem run_append (as bs : List α) (s : σ) : run step (as ++ bs) s = (run step as s).bind (run step bs) := by
  induction as generalizing s with
  | nil => rfl
  | cons a as ih =>
    rw [List.cons_append, run_cons, run_cons, Option.bind_assoc]
    exact congrArg _ (funext ih)

theorem run_append_some {bs : List α} {t u : σ} (h' : run step bs t = some u) :
    ∀ {as : List α} {s : σ}, run step as s = some t → run step (as ++ bs) s = some u
  | [], s, h => by cases h; exact h'
  | a :: as, s, h => by
    obtain ⟨s', h₁, h₂⟩ := run_cons_some.1 h
    exact run_cons_some.2 ⟨s', h₁, run_append_some h' h₂⟩

theorem run_snoc_some {a : α} {u : σ} : ∀ {as : List α} {s : σ},
    run step (as ++ [a]) s = some u ↔ ∃ t, run step as s = some t ∧ step a t = some u
  | [], s => by
    rw [List.nil_append, run_cons_some]
    constructor
    · rintro ⟨t, ht, hu⟩
      cases hu
      exact ⟨s, rfl, ht⟩
    · rintro ⟨t, ht, hu⟩
      cases ht
      exact ⟨u, hu, rfl⟩
  | b :: as, s => by
    rw [List.cons_append, run_cons_some]
    constructor
    · rintro ⟨t, ht, hu⟩
      obtain ⟨v, hv, hu⟩ := run_snoc_some.1 hu
      exact ⟨v, run_cons_some.2 ⟨t, ht, hv⟩, hu⟩
    · rintro ⟨v, hv, hu⟩
      obtain ⟨t, ht, hv⟩ := run_cons_some.1 hv
      exact ⟨t, ht, run_snoc_some.2 ⟨v, hv, hu⟩⟩

theorem Guarded.cons {G : σ → α → Prop} {a : α} {as : List α} {s s' : σ} (hG : G s a)
    (hs : step a s = some s') (h : Guarded step G s' as) : Guarded step G s (a :: as) :=
  ⟨hG, fun _ h' => Option.some.inj (hs.symm.trans h') ▸ h⟩

instance Guarded.decidable {G : σ → α → Prop} [∀ s a, Decidable (G s a)] :
    ∀ (s : σ) (as : List α), Decidable (Guarded step G s as)
  | _, [] => isTrue trivial
  | s, a :: as =>
    have : DecidablePred fun s' => Guarded step G s' as := fun s' => Guarded.decidable s' as
    have : Decidable (∀ s' ∈ step a s, Guarded step G s' as) := Option.decidableForallMem (step a s)
    inferInstanceAs (Decidable (G s a ∧ ∀ s' ∈ step a s, Guarded step G s' as))

/-- Every action meets `G` in the state that those before it lead to. -/
theorem guarded_iff {G : σ → α → Prop} : ∀ {as : List α} {s : σ}, Guarded step G s as ↔
    ∀ before a after, as = before ++ a :: after → ∀ t, run step before s = some t → G t a
  | [], s => iff_of_true trivial fun before a after h => by simp at h
  | b :: as, s => by
    constructor
    · rintro ⟨hG, hrest⟩ (_ | ⟨b', before⟩) a after h t ht
      · obtain ⟨rfl, -⟩ := List.cons_eq_cons.1 h
        cases ht
        exact hG
      · obtain ⟨rfl, has⟩ := List.cons_eq_cons.1 h
        obtain ⟨s', hs, ht⟩ := run_cons_some.1 ht
        exact guarded_iff.1 (hrest s' hs) before a after has t ht
    · intro h
      refine ⟨h [] b as rfl s rfl, fun s' hs => guarded_iff.2 fun before a after has t ht => ?_⟩
      exact h (b :: before) a after (congrArg (b :: ·) has) t (run_cons_some.2 ⟨s', hs, ht⟩)

/-- **Invariants along runs.** -/
theorem run_inv {I : σ → Prop} (hI : ∀ s a s', I s → step a s = some s' → I s') :
    ∀ {as : List α} {s t : σ}, I s → run step as s = some t → I t
  | [], s, t, hs, h => by cases h; exact hs
  | a :: as, s, t, hs, h => by
    obtain ⟨s', h₁, h₂⟩ := run_cons_some.1 h
    exact run_inv hI (hI s a s' hs h₁) h₂

/-- **Invariants along guarded runs.** -/
theorem Guarded.run_inv {G : σ → α → Prop} {I : σ → Prop}
    (hI : ∀ s a s', I s → G s a → step a s = some s' → I s') :
    ∀ {as : List α} {s t : σ}, Guarded step G s as → I s → run step as s = some t → I t
  | [], s, t, _, hs, h => by cases h; exact hs
  | a :: as, s, t, hg, hs, h => by
    obtain ⟨s', h₁, h₂⟩ := run_cons_some.1 h
    exact run_inv hI (hg.2 s' h₁) (hI s a s' hs hg.1 h₁) h₂

/-- **Guarded runs do not get stuck**, where no guarded step does. -/
theorem Guarded.run_total {G : σ → α → Prop} {I : σ → Prop}
    (hI : ∀ s a, I s → G s a → ∃ s', step a s = some s' ∧ I s') :
    ∀ {as : List α} {s : σ}, Guarded step G s as → I s → ∃ t, run step as s = some t ∧ I t
  | [], s, _, hs => ⟨s, rfl, hs⟩
  | a :: as, s, hg, hs => by
    obtain ⟨s', h₁, hs'⟩ := hI s a hs hg.1
    obtain ⟨t, h, ht⟩ := run_total hI (hg.2 s' h₁) hs'
    exact ⟨t, run_cons_some.2 ⟨s', h₁, h⟩, ht⟩

/-- **Refinement along runs.**  A step that is enabled and follows `f`, action by action, makes runs that
follow `f`. -/
theorem run_refines {τ : Type*} {G : α → Prop} {R : σ → τ → Prop} {f : τ → α → τ}
    (hR : ∀ s t a, G a → R s t → ∃ s', step a s = some s' ∧ R s' (f t a)) :
    ∀ {as : List α} {s : σ} {t : τ}, (∀ a ∈ as, G a) → R s t → ∃ s', run step as s = some s' ∧ R s' (as.foldl f t)
  | [], s, _, _, h => ⟨s, rfl, h⟩
  | a :: as, s, t, hG, h => by
    obtain ⟨s₁, h₁, hR₁⟩ := hR s t a (hG a List.mem_cons_self) h
    obtain ⟨s', h', hR'⟩ := run_refines hR (fun b hb => hG b (List.mem_cons_of_mem a hb)) hR₁
    exact ⟨s', run_cons_some.2 ⟨s₁, h₁, h'⟩, hR'⟩

/-! ## Counting steps -/

variable (step) in
/-- The number of actions of the run that meet `G`. -/
def tally (G : σ → α → Prop) [∀ s a, Decidable (G s a)] : σ → List α → ℕ
  | _, [] => 0
  | s, a :: as => (if G s a then 1 else 0) + (step a s).elim 0 fun s' => tally G s' as

variable {G : σ → α → Prop} [∀ s a, Decidable (G s a)]

/-- **Counters along runs.** -/
theorem run_tally {I : ℕ → σ → Prop}
    (hI : ∀ n s a s', I n s → step a s = some s' → I (n + if G s a then 1 else 0) s') :
    ∀ {as : List α} {n : ℕ} {s t : σ}, I n s → run step as s = some t →
      I (n + tally step G s as) t
  | [], n, s, t, hs, h => by cases h; exact hs
  | a :: as, n, s, t, hs, h => by
    obtain ⟨s', h₁, h₂⟩ := run_cons_some.1 h
    have hrest := run_tally hI (hI n s a s' hs h₁) h₂
    rwa [tally, h₁, Option.elim_some, ← Nat.add_assoc]

/-- No action of the run meets `G`. -/
theorem tally_eq_zero : ∀ {as : List α} {s : σ},
    tally step G s as = 0 ↔ Guarded step (fun s a => ¬ G s a) s as
  | [], s => by simp [tally, Guarded]
  | a :: as, s => by
    rw [tally, Guarded, Nat.add_eq_zero_iff]
    have hfirst : (if G s a then 1 else 0) = 0 ↔ ¬ G s a := by split_ifs <;> simp_all
    rw [hfirst]
    refine and_congr_right fun _ => ?_
    cases step a s with
    | none => simp
    | some s' => simpa using tally_eq_zero

end Base
