/-
  The lines in the ring buffer between two flushes.

  `sinceFlush xs` are the samples consumed since the last flush that emptied the
  buffer.  The buffer holds their lines, whole and in order, as long as they fit
  into its 4068 bytes; the first line that does not fit is cut
  (`wholeLines_iff_fits`).
-/
import DataRecorder.Logger.Saver

namespace DataRecorder

open Base

/-- The flush of this sample's iteration empties the ring buffer. -/
def Consumed.Drains (x : Consumed) : Prop := x.rtc.time.seconds = 59 ∧ toChar x.io.fd ≠ 0

instance (x : Consumed) : Decidable x.Drains := inferInstanceAs (Decidable (_ ∧ _))

/-- The samples consumed since the ring buffer was last emptied. -/
def sinceFlush (xs : List Consumed) : List Consumed :=
  xs.foldl (fun ys x => if x.Drains then [] else ys ++ [x]) []

theorem sinceFlush_snoc (xs : List Consumed) (x : Consumed) :
    sinceFlush (xs ++ [x]) = if x.Drains then [] else sinceFlush xs ++ [x] := by
  simp [sinceFlush]

def csvLines (xs : List Consumed) : List UInt8 := xs.flatMap Consumed.line

@[simp] theorem csvLines_nil : csvLines [] = [] := rfl

theorem csvLines_append (xs ys : List Consumed) : csvLines (xs ++ ys) = csvLines xs ++ csvLines ys :=
  List.flatMap_append

@[simp] theorem csvLines_singleton (x : Consumed) : csvLines [x] = x.line := List.flatMap_singleton ..

section
variable (pool : ℕ → UInt8)

/-- **Whole lines**: after every `rt_ringbuffer_put`, and between the iterations,
    the ring buffer holds the complete lines of the samples consumed since it was
    last emptied, in order. -/
structure WholeLines (xs : List Consumed) : Prop where
  put : ∀ ys x, ys ++ [x] <+: xs →
    (rtRingbufferPut (saveRun pool ys).rb x.line).1.contents = csvLines (sinceFlush ys ++ [x])
  between : ∀ ys, ys <+: xs → (saveRun pool ys).rb.contents = csvLines (sinceFlush ys)

/-- The lines of the samples consumed since the last flush never exceed the
    4068 bytes of the ring buffer. -/
def Fits (xs : List Consumed) : Prop :=
  ∀ ys x, ys ++ [x] <+: xs → (csvLines (sinceFlush ys ++ [x])).length ≤ 4068

theorem consume_contents (s : Saver) (x : Consumed) :
    (s.consume x).rb.contents = if x.Drains then [] else (rtRingbufferPut s.rb x.line).1.contents := by
  unfold Saver.consume Consumed.Drains
  by_cases hs : x.rtc.time.seconds = 59
  · simp only [hs, ↓reduceIte, flush_contents, true_and, ne_eq, ite_not]
  · simp only [hs, ↓reduceIte, false_and]

theorem saveRun_contents {xs : List Consumed} (h : Fits xs) :
    (saveRun pool xs).rb.contents = csvLines (sinceFlush xs) := by
  induction xs using List.reverseRecOn with
  | nil => rfl
  | append_singleton xs x ih =>
    have ih := ih fun ys y hys => h ys y (hys.trans (List.prefix_append xs [x]))
    rw [saveRun_snoc, consume_contents, sinceFlush_snoc]
    split
    · rfl
    · have hfit := h xs x (List.prefix_refl _)
      rw [csvLines_append, csvLines_singleton, List.length_append, ← ih] at hfit
      rw [RtRingbuffer.contents_put_fit _ (by rwa [saveRun_bufferSize]), ih, csvLines_append,
        csvLines_singleton]

theorem Fits.mono {xs ys : List Consumed} (h : Fits xs) (hy : ys <+: xs) : Fits ys :=
  fun zs z hz => h zs z (hz.trans hy)

/-- **Lines are stored whole exactly as long as they fit.** -/
theorem wholeLines_iff_fits (xs : List Consumed) : WholeLines pool xs ↔ Fits xs := by
  constructor
  · intro h ys x hx
    rw [← h.put ys x hx, ← saveRun_bufferSize pool ys, ← RtRingbuffer.put_bufferSize]
    exact RtRingbuffer.contents_length_le _
  · intro h
    refine ⟨fun ys x hx => ?_, fun ys hy => saveRun_contents pool (h.mono hy)⟩
    have hys := h.mono ((List.prefix_append ys [x]).trans hx)
    have hfit := h ys x hx
    rw [csvLines_append, csvLines_singleton, List.length_append, ← saveRun_contents pool hys] at hfit
    rw [RtRingbuffer.contents_put_fit _ (by rwa [saveRun_bufferSize]), saveRun_contents pool hys,
      csvLines_append, csvLines_singleton]

end

/-! ## Samples that never meet second 59 -/

theorem sinceFlush_replicate {x : Consumed} (hx : ¬ x.Drains) (n : ℕ) :
    sinceFlush (List.replicate n x) = List.replicate n x := by
  induction n with
  | zero => rfl
  | succ n ih => rw [List.replicate_succ', sinceFlush_snoc, ih, if_neg hx]

theorem csvLines_replicate_length (x : Consumed) (n : ℕ) :
    (csvLines (List.replicate n x)).length = n * x.line.length := by
  simp [csvLines]

def noonSample : Consumed := ⟨⟨25, 60⟩, ⟨⟨12, 30, 10⟩, ⟨2021, 4, 24⟩⟩, ⟨3, fun _ => 2034⟩⟩

/-- After 300 samples without a flush the ring buffer has cut a line. -/
theorem not_wholeLines : ¬ WholeLines (fun _ => 0) (List.replicate 300 noonSample) := by
  intro h
  have hlen := congrArg List.length (h.between _ (List.prefix_refl _))
  rw [sinceFlush_replicate (by decide), csvLines_replicate_length,
    show noonSample.line.length = 15 by decide] at hlen
  have := (saveRun (fun _ => 0) (List.replicate 300 noonSample)).rb.contents_length_le
  rw [saveRun_bufferSize] at this
  omega

end DataRecorder
