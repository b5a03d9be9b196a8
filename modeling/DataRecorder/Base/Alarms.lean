/-
  A service that sets alarms by a clock.

  An alarm is set for some ticks from now, and goes off when they have passed; one that
  is set for no ticks goes off at the next one.  Of several that are due, the one that
  was set for the earliest tick comes first, and of these the one that was set first.

  * `sorted_enter`: the pending alarms stay in order;
  * `overdue_step`: between two ticks only those go off that were due.
-/
import DataRecorder.Base.System
import Mathlib.Data.List.Pairwise
import Mathlib.Data.List.TakeWhile

namespace Base

variable {ι : Type*}

structure Alarm (ι : Type*) where
  id : ι
  /-- the tick that it was set for -/
  key : ℕ
  /-- the tick at which it goes off -/
  due : ℕ

inductive Notice (ι : Type*) where
  | tick
  | started (i : ι) (n : ℕ)
  | stopped (i : ι)
  | fired (i : ι)
  deriving DecidableEq

/-- The number of alarms that go off. -/
def Notice.calls : Notice ι → ℕ
  | .fired _ => 1
  | _ => 0

/-- The alarm is entered behind all that were set for its tick, or for an earlier one. -/
def enter (a : Alarm ι) (l : List (Alarm ι)) : List (Alarm ι) :=
  l.takeWhile (fun b => b.key ≤ a.key) ++ a :: l.dropWhile (fun b => b.key ≤ a.key)

structure Service (ι : Type*) where
  now : ℕ
  pending : List (Alarm ι)

def overdue (s : Service ι) : ℕ := s.pending.countP fun a => a.due ≤ s.now

section
variable [DecidableEq ι]

def drop (i : ι) (l : List (Alarm ι)) : List (Alarm ι) := l.filter fun a => a.id ≠ i

namespace Service

/-- An alarm goes off when it is due, and the clock does not pass one that is. -/
def step : Notice ι → Service ι → Option (Service ι)
  | .tick, s => if ∀ a ∈ s.pending, s.now < a.due then some { s with now := s.now + 1 } else none
  | .started i n, s => some { s with pending := enter ⟨i, s.now + n, s.now + max n 1⟩ (drop i s.pending) }
  | .stopped i, s => some { s with pending := drop i s.pending }
  | .fired i, s =>
    if ∃ a ∈ s.pending.head?, a.id = i ∧ a.due = s.now then some { s with pending := s.pending.tail } else none

end Service

end

/-! ## Entering and dropping -/

variable {a b : Alarm ι} {l : List (Alarm ι)} {s s' : Service ι}

theorem mem_enter : b ∈ enter a l ↔ b = a ∨ b ∈ l := by
  have hl : b ∈ l ↔ b ∈ l.takeWhile (fun c => c.key ≤ a.key) ∨ b ∈ l.dropWhile (fun c => c.key ≤ a.key) := by
    rw [← List.mem_append, List.takeWhile_append_dropWhile]
  rw [enter, List.mem_append, List.mem_cons, hl]
  tauto

theorem enter_perm (a : Alarm ι) (l : List (Alarm ι)) : (enter a l).Perm (a :: l) := by
  have hl : (enter a l).Perm (a :: (l.takeWhile (fun c => c.key ≤ a.key) ++ l.dropWhile (fun c => c.key ≤ a.key))) :=
    List.perm_middle
  rwa [List.takeWhile_append_dropWhile] at hl

theorem sorted_enter (hl : l.Pairwise fun b c => b.key ≤ c.key) : (enter a l).Pairwise fun b c => b.key ≤ c.key := by
  induction l with
  | nil => exact List.pairwise_singleton _ _
  | cons b l ih =>
    obtain ⟨hb, hl⟩ := List.pairwise_cons.1 hl
    by_cases hba : b.key ≤ a.key
    · have hcons : enter a (b :: l) = b :: enter a l := by simp [enter, hba]
      rw [hcons, List.pairwise_cons]
      refine ⟨fun c hc => ?_, ih hl⟩
      rcases mem_enter.1 hc with rfl | hc
      · exact hba
      · exact hb c hc
    · have hcons : enter a (b :: l) = a :: b :: l := by simp [enter, hba]
      rw [hcons, List.pairwise_cons, List.pairwise_cons]
      refine ⟨fun c hc => ?_, hb, hl⟩
      rcases List.mem_cons.1 hc with rfl | hc
      · omega
      · have := hb c hc
        omega

/-- The places are the same where the alarms are only known by their names. -/
theorem map_enter {f : ι → Bool} (h : ∀ b ∈ l, f b.id = decide (b.key ≤ a.key)) :
    (enter a l).map Alarm.id = (l.map Alarm.id).takeWhile f ++ a.id :: (l.map Alarm.id).dropWhile f := by
  induction l with
  | nil => rfl
  | cons b l ih =>
    have hb := h b List.mem_cons_self
    have ih := ih fun c hc => h c (List.mem_cons_of_mem b hc)
    by_cases hba : b.key ≤ a.key
    · have hcons : enter a (b :: l) = b :: enter a l := by simp [enter, hba]
      rw [hcons, List.map_cons, ih]
      simp [hb, hba]
    · have hcons : enter a (b :: l) = a :: b :: l := by simp [enter, hba]
      rw [hcons]
      simp [hb, hba]

section
variable [DecidableEq ι] {i : ι}

theorem map_drop : (drop i l).map Alarm.id = (l.map Alarm.id).filter (· ≠ i) := by
  rw [drop, List.filter_map]
  rfl

theorem mem_drop : b ∈ drop i l ↔ b ∈ l ∧ b.id ≠ i := by simp [drop]

/-! ## Runs of the service -/

variable {e : Notice ι} {es : List (Notice ι)}

theorem step_fired (h : s.step (.fired i) = some s') :
    ∃ a, s.pending = a :: s'.pending ∧ a.id = i ∧ a.due = s.now ∧ s'.now = s.now := by
  rw [Service.step] at h
  split_ifs at h with hhead
  cases h
  obtain ⟨a, ha, hid, hdue⟩ := hhead
  exact ⟨a, (List.cons_head?_tail ha).symm, hid, hdue, rfl⟩

/-- What is overdue goes off or is stopped, and nothing else becomes overdue before the next tick. -/
theorem overdue_step (h : s.step e = some s') (he : e ≠ .tick) : e.calls + overdue s' ≤ overdue s := by
  have hdrop (j : ι) : (drop j s.pending).countP (fun a => a.due ≤ s.now) ≤ overdue s :=
    List.Sublist.countP_le List.filter_sublist
  cases e with
  | tick => exact absurd rfl he
  | started j n =>
    cases h
    show 0 + overdue _ ≤ _
    rw [Nat.zero_add, overdue, (enter_perm _ _).countP_eq, List.countP_cons_of_neg]
    · exact hdrop j
    · show ¬ decide (s.now + max n 1 ≤ s.now) = true
      rw [decide_eq_true_eq]
      omega
  | stopped j =>
    cases h
    show 0 + overdue _ ≤ _
    rw [Nat.zero_add]
    exact hdrop j
  | fired j =>
    obtain ⟨a, hcons, -, hdue, hnow⟩ := step_fired h
    show 1 + overdue _ ≤ _
    rw [overdue, overdue, hcons, hnow, List.countP_cons_of_pos (by simp [hdue]), Nat.add_comm]

/-- What happens to the others leaves an alarm alone. -/
theorem mem_step {b : Alarm ι} (h : s.step e = some s') (hb : b ∈ s.pending) (hstart : ∀ n, e ≠ .started b.id n)
    (hstop : e ≠ .stopped b.id) (hfire : e ≠ .fired b.id) : b ∈ s'.pending := by
  cases e with
  | tick =>
    rw [Service.step] at h
    split_ifs at h
    cases h
    exact hb
  | started j n =>
    cases h
    refine mem_enter.2 (Or.inr (mem_drop.2 ⟨hb, ?_⟩))
    rintro rfl
    exact hstart n rfl
  | stopped j =>
    cases h
    refine mem_drop.2 ⟨hb, ?_⟩
    rintro rfl
    exact hstop rfl
  | fired j =>
    obtain ⟨a, hcons, rfl, -, -⟩ := step_fired h
    rw [hcons] at hb
    rcases List.mem_cons.1 hb with rfl | hb
    · exact absurd rfl hfire
    · exact hb

/-- The clock counts the ticks. -/
theorem now_step (h : s.step e = some s') : s'.now = s.now + if e = .tick then 1 else 0 := by
  cases e with
  | tick =>
    rw [Service.step] at h
    split_ifs at h
    cases h
    rfl
  | started j n =>
    cases h
    rfl
  | stopped j =>
    cases h
    rfl
  | fired j =>
    obtain ⟨a, -, -, -, hnow⟩ := step_fired h
    exact hnow

/-- The times at which the alarm `i` goes off, by a clock that starts at `k`. -/
def fires (i : ι) (k : ℕ) : List (Notice ι) → List ℕ
  | [] => []
  | .tick :: es => fires i (k + 1) es
  | .fired j :: es => (if j = i then [k] else []) ++ fires i k es
  | _ :: es => fires i k es

theorem fires_append (k : ℕ) (es fs : List (Notice ι)) :
    fires i k (es ++ fs) = fires i k es ++ fires i (k + es.count .tick) fs := by
  induction es generalizing k with
  | nil => rfl
  | cons e es ih =>
    cases e with
    | tick =>
      have hcount : k + (Notice.tick :: es).count .tick = k + 1 + es.count .tick := by
        rw [List.count_cons_self]
        omega
      rw [hcount]
      exact ih (k + 1)
    | fired j =>
      rw [List.count_cons_of_ne (by simp)]
      show _ ++ fires i k (es ++ fs) = _ ++ fires i k es ++ _
      rw [ih k, List.append_assoc]
    | started j n | stopped j =>
      rw [List.count_cons_of_ne (by simp)]
      exact ih k

end

end Base
