/-
  Conservation of the log: the minute files in chronological order, followed by
  the bytes still in the ring buffer, are the lines of all consumed samples.

  * `Conserved pool xs` states it for the samples `xs`;
  * a run is `Undisturbed` if the clock never goes back, every line fits into the
    ring buffer and the file system reports no error;
  * `conserved_iff`: an undisturbed run conserves the log at every point iff no
    two of its samples fall in second 59 of one minute.  The second of them
    overwrites the file of the first, which was opened without `O_APPEND`.
-/
import DataRecorder.Logger.WholeLines
import Mathlib.Data.Finset.Sort

namespace DataRecorder

open Base

/-! ## Files in chronological order -/

/-- The content of a minute's file, empty if there is none. -/
def fileOf (files : Files) (m : Minute) : List UInt8 := (files (csvPath m)).getD []

/-- The files of the minutes in `S`, in chronological order. -/
def chronicle (files : Files) (S : Finset Minute) : List UInt8 :=
  (S.sort (· ≤ ·)).flatMap (fileOf files)

theorem sort_insert_max {α : Type*} [LinearOrder α] {S : Finset α} {m : α} (h : ∀ a ∈ S, a ≤ m) :
    (insert m S).sort (· ≤ ·) = (S.erase m).sort (· ≤ ·) ++ [m] := by
  have hlast : ∀ a ∈ (S.erase m).sort (· ≤ ·), ∀ b ∈ [m], a ≤ b := by
    intro a ha b hb
    rw [List.mem_singleton.1 hb]
    exact h a (Finset.mem_of_mem_erase ((Finset.mem_sort _).1 ha))
  have hnodup : ((S.erase m).sort (· ≤ ·) ++ [m]).Nodup := by
    rw [List.nodup_append]
    refine ⟨Finset.sort_nodup _ _, List.nodup_singleton m, ?_⟩
    rintro a ha b hb rfl
    rw [List.mem_singleton.1 hb, Finset.mem_sort] at ha
    exact Finset.notMem_erase m S ha
  refine List.Perm.eq_of_pairwise' (r := (· ≤ ·)) (Finset.pairwise_sort _ _)
    (List.pairwise_append.2 ⟨Finset.pairwise_sort _ _, List.pairwise_singleton _ m, hlast⟩) ?_
  refine (List.perm_ext_iff_of_nodup (Finset.sort_nodup _ _) hnodup).2 fun a => ?_
  by_cases ha : a = m <;> simp [ha]

theorem chronicle_insert_max (files : Files) {S : Finset Minute} {m : Minute} (h : ∀ a ∈ S, a ≤ m) :
    chronicle files (insert m S) = chronicle files (S.erase m) ++ fileOf files m := by
  simp [chronicle, sort_insert_max h]

theorem chronicle_congr {files files' : Files} {S : Finset Minute}
    (h : ∀ m ∈ S, fileOf files m = fileOf files' m) : chronicle files S = chronicle files' S :=
  List.flatMap_congr fun m hm => h m ((Finset.mem_sort _).1 hm)

theorem chronicle_erase {files : Files} {S : Finset Minute} {m : Minute} (h : ∀ a ∈ S, a ≤ m)
    (hm : fileOf files m = []) : chronicle files S = chronicle files (S.erase m) := by
  by_cases hS : m ∈ S
  · conv_lhs => rw [← Finset.insert_eq_of_mem hS, chronicle_insert_max files h, hm, List.append_nil]
  · rw [Finset.erase_eq_of_notMem hS]

theorem fileOf_update_self (files : Files) (m : Minute) (c : List UInt8) :
    fileOf (Function.update files (csvPath m) (some c)) m = c := by
  simp [fileOf]

theorem fileOf_update_ne (files : Files) {m a : Minute} (h : a ≠ m) (c : List UInt8) :
    fileOf (Function.update files (csvPath m) (some c)) a = fileOf files a := by
  simp [fileOf, Function.update_of_ne (csvPath_injective.ne h)]

/-- The files after one minute's file, the last, was changed. -/
theorem chronicle_update_max (files : Files) {S : Finset Minute} {m : Minute} (h : ∀ a ∈ S, a ≤ m)
    (c : List UInt8) :
    chronicle (Function.update files (csvPath m) (some c)) (insert m S) =
      chronicle files (S.erase m) ++ c := by
  rw [chronicle_insert_max _ h, fileOf_update_self]
  congr 1
  exact chronicle_congr fun a ha => fileOf_update_ne files (Finset.ne_of_mem_erase ha) c

/-! ## Runs -/

def minutes (xs : List Consumed) : Finset Minute := (xs.map fun x => x.rtc.minute).toFinset

theorem minutes_snoc (xs : List Consumed) (x : Consumed) :
    minutes (xs ++ [x]) = insert x.rtc.minute (minutes xs) := by
  ext m; simp [minutes]

section
variable (pool : ℕ → UInt8)

/-- The files in chronological order and then the ring buffer hold the lines of
    all the samples. -/
def Conserved (xs : List Consumed) : Prop :=
  chronicle (saveRun pool xs).files (minutes xs) ++ (saveRun pool xs).rb.contents = csvLines xs

/-- The clock never goes back, every line fits into the ring buffer, and no file
    operation of a flush fails: `open` returns a descriptor (they start at
    `DFS_FD_OFFSET`, and there are `DFS_FD_MAX`), and `write` stores its chunk. -/
structure Undisturbed (xs : List Consumed) : Prop where
  ordered : (xs.map fun x => x.rtc.stamp).Pairwise (· ≤ ·)
  never_fills : ∀ ys x, ys ++ [x] <+: xs →
    (saveRun pool ys).rb.contents.length + x.line.length ≤ 4068
  no_error : ∀ ys x, ys ++ [x] <+: xs → x.rtc.time.seconds = 59 →
    (3 ≤ x.io.fd ∧ x.io.fd < 19) ∧ x.io.WritesAll 0 ((saveRun pool ys).rb.contents ++ x.line)

def OneFlushAMinute (xs : List Consumed) : Prop :=
  ((xs.filter fun x => x.rtc.time.seconds = 59).map fun x => x.rtc.minute).Nodup

variable {pool} {xs : List Consumed}

theorem Undisturbed.mono (h : Undisturbed pool xs) {ys : List Consumed} (hy : ys <+: xs) :
    Undisturbed pool ys where
  ordered := h.ordered.sublist (hy.sublist.map _)
  never_fills zs z hz := h.never_fills zs z (hz.trans hy)
  no_error zs z hz := h.no_error zs z (hz.trans hy)

variable {x : Consumed} (h : Undisturbed pool (xs ++ [x]))
include h

theorem Undisturbed.init : Undisturbed pool xs := h.mono (List.prefix_append xs [x])

theorem Undisturbed.le_last : ∀ m ∈ minutes xs, m ≤ x.rtc.minute := by
  intro m hm
  obtain ⟨y, hy, rfl⟩ := List.mem_map.1 (List.mem_toFinset.1 hm)
  have ho := h.ordered
  rw [List.map_append, List.pairwise_append] at ho
  exact Rtc.minute_mono (ho.2.2 _ (List.mem_map_of_mem hy) _ (by simp))

theorem Undisturbed.put :
    (rtRingbufferPut (saveRun pool xs).rb x.line).1.contents = (saveRun pool xs).rb.contents ++ x.line :=
  RtRingbuffer.contents_put_fit _ (by
    rw [saveRun_bufferSize]; exact h.never_fills xs x (List.prefix_refl _))

theorem Undisturbed.keep (hx : x.rtc.time.seconds ≠ 59) :
    (saveRun pool (xs ++ [x])).files = (saveRun pool xs).files ∧
      (saveRun pool (xs ++ [x])).rb.contents = (saveRun pool xs).rb.contents ++ x.line := by
  rw [saveRun_snoc, ← h.put]
  unfold Saver.consume; dsimp only
  rw [if_neg hx]; exact ⟨rfl, rfl⟩

theorem Undisturbed.flushed (hx : x.rtc.time.seconds = 59) :
    (saveRun pool (xs ++ [x])).rb.contents = [] ∧
      (saveRun pool (xs ++ [x])).files = Function.update (saveRun pool xs).files (csvPath x.rtc.minute)
        (some (writeAt (fileOf (saveRun pool xs).files x.rtc.minute) 0
          ((saveRun pool xs).rb.contents ++ x.line))) := by
  obtain ⟨⟨hlo, hhi⟩, hw⟩ := h.no_error xs x (List.prefix_refl _) hx
  have hc : toChar x.io.fd = x.io.fd := by unfold toChar; omega
  have ho : x.io.Opened := ⟨by omega, hc⟩
  have h0 : toChar x.io.fd ≠ 0 := by rw [hc]; omega
  rw [saveRun_snoc]
  unfold Saver.consume; dsimp only
  rw [if_pos hx]; dsimp only
  refine ⟨by rw [flush_contents, if_neg h0], ?_⟩
  rw [flush_files _ _ _ _ ho h0, flush_written, if_neg h0, h.put, (storedFrom_eq_iff ho 0 _).2 hw]
  rfl

omit h

/-- A file exists only for a minute in whose second 59 a sample fell. -/
theorem Undisturbed.file_origin {xs : List Consumed} (h : Undisturbed pool xs) {m : Minute}
    (hm : fileOf (saveRun pool xs).files m ≠ []) :
    ∃ y ∈ xs, y.rtc.time.seconds = 59 ∧ y.rtc.minute = m := by
  induction xs using List.reverseRecOn with
  | nil => exact absurd rfl hm
  | append_singleton xs x ih =>
    by_cases hx : x.rtc.time.seconds = 59
    · rw [(h.flushed hx).2] at hm
      by_cases he : m = x.rtc.minute
      · exact ⟨x, by simp, hx, he.symm⟩
      · rw [fileOf_update_ne _ he] at hm
        obtain ⟨y, hy, hs⟩ := ih h.init hm
        exact ⟨y, List.mem_append_left _ hy, hs⟩
    · rw [(h.keep hx).1] at hm
      obtain ⟨y, hy, hs⟩ := ih h.init hm
      exact ⟨y, List.mem_append_left _ hy, hs⟩

theorem Undisturbed.file_ne_nil {xs : List Consumed} (h : Undisturbed pool xs) {y : Consumed}
    (hy : y ∈ xs) (hs : y.rtc.time.seconds = 59) :
    fileOf (saveRun pool xs).files y.rtc.minute ≠ [] := by
  induction xs using List.reverseRecOn with
  | nil => exact absurd hy List.not_mem_nil
  | append_singleton xs x ih =>
    have hnew (c : List UInt8) (l : List UInt8) : writeAt c 0 (l ++ x.line) ≠ [] := by
      intro he
      have := congrArg List.length he
      rw [writeAt_length (Nat.zero_le _), List.length_append] at this
      have := strData_length_pos x.sample x.rtc.time
      simp only [Consumed.line, List.length_nil] at *; omega
    rcases List.mem_append.1 hy with hy | hy
    · by_cases hx : x.rtc.time.seconds = 59
      · rw [(h.flushed hx).2]
        by_cases he : y.rtc.minute = x.rtc.minute
        · rw [he, fileOf_update_self]; exact hnew _ _
        · rw [fileOf_update_ne _ he]; exact ih h.init hy
      · rw [(h.keep hx).1]; exact ih h.init hy
    · obtain rfl := List.mem_singleton.1 hy
      rw [(h.flushed hs).2, fileOf_update_self]; exact hnew _ _

/-! ## The condition -/

theorem oneFlush_snoc (xs : List Consumed) (x : Consumed) :
    OneFlushAMinute (xs ++ [x]) ↔ OneFlushAMinute xs ∧
      (x.rtc.time.seconds = 59 → ∀ y ∈ xs, y.rtc.time.seconds = 59 → y.rtc.minute ≠ x.rtc.minute) := by
  unfold OneFlushAMinute
  rw [List.filter_append, List.map_append, List.nodup_append]
  by_cases hx : x.rtc.time.seconds = 59
  · rw [List.filter_cons_of_pos (by simp [hx]), List.filter_nil, List.map_singleton]
    refine ⟨fun ⟨hn, _, hd⟩ => ⟨hn, fun _ y hy hys => ?_⟩, fun ⟨hn, hd⟩ => ⟨hn, List.nodup_singleton _, ?_⟩⟩
    · exact hd _ (List.mem_map_of_mem (List.mem_filter.2 ⟨hy, by simp [hys]⟩)) _ List.mem_cons_self
    · intro m hm m' hm'
      obtain ⟨y, hy, rfl⟩ := List.mem_map.1 hm
      obtain ⟨hy, hys⟩ := List.mem_filter.1 hy
      rw [List.mem_singleton.1 hm']
      exact hd hx y hy (of_decide_eq_true hys)
  · rw [List.filter_cons_of_neg (by simp [hx]), List.filter_nil, List.map_nil]
    exact ⟨fun ⟨hn, _⟩ => ⟨hn, fun h => absurd h hx⟩, fun ⟨hn, _⟩ => ⟨hn, List.nodup_nil, by simp⟩⟩

theorem conserved_of_oneFlush {xs : List Consumed} (h : Undisturbed pool xs) (hone : OneFlushAMinute xs) :
    Conserved pool xs := by
  induction xs using List.reverseRecOn with
  | nil => simp [Conserved, chronicle, minutes, saveRun_nil_contents]
  | append_singleton xs x ih =>
    obtain ⟨hxs, hx⟩ := (oneFlush_snoc xs x).1 hone
    have ih : chronicle _ _ ++ _ = _ := ih h.init hxs
    rw [Conserved, csvLines_append, csvLines_singleton, minutes_snoc, ← ih]
    by_cases hs : x.rtc.time.seconds = 59
    · -- the file of this minute is new
      have hnew : fileOf (saveRun pool xs).files x.rtc.minute = [] := by
        by_contra hne
        obtain ⟨y, hy, hys, hym⟩ := h.init.file_origin hne
        exact hx hs y hy hys hym
      rw [(h.flushed hs).1, (h.flushed hs).2, hnew, chronicle_update_max _ h.le_last,
        chronicle_erase h.le_last hnew]
      simp [writeAt]
    · -- the file of this minute, if any, is older than the sample
      obtain ⟨hf, hr⟩ := h.keep hs
      rw [hf, hr, ← List.append_assoc]
      congr 2
      by_cases hm : x.rtc.minute ∈ minutes xs
      · rw [Finset.insert_eq_of_mem hm]
      · have hnone : fileOf (saveRun pool xs).files x.rtc.minute = [] := by
          by_contra hne
          obtain ⟨y, hy, -, hym⟩ := h.init.file_origin hne
          exact hm (List.mem_toFinset.2 (List.mem_map.2 ⟨y, hy, hym⟩))
        rw [chronicle_insert_max _ h.le_last, hnone, List.append_nil, Finset.erase_eq_of_notMem hm]

theorem oneFlush_of_conserved {xs : List Consumed} (h : Undisturbed pool xs)
    (hc : ∀ ys, ys <+: xs → Conserved pool ys) : OneFlushAMinute xs := by
  induction xs using List.reverseRecOn with
  | nil => exact List.nodup_nil
  | append_singleton xs x ih =>
    refine (oneFlush_snoc xs x).2 ⟨ih h.init fun ys hy => hc ys (hy.trans (List.prefix_append ..)), ?_⟩
    intro hs y hy hys hym
    -- two flushes into one file: the bytes no longer add up
    have hold := h.init.file_ne_nil hy hys
    rw [hym] at hold
    have hmem : x.rtc.minute ∈ minutes xs := List.mem_toFinset.2 (List.mem_map.2 ⟨y, hy, hym⟩)
    have hbefore := congrArg List.length (hc xs (List.prefix_append ..))
    have hafter := congrArg List.length (hc _ (List.prefix_refl _))
    rw [← Finset.insert_eq_of_mem hmem, chronicle_insert_max _ h.le_last] at hbefore
    rw [(h.flushed hs).1, (h.flushed hs).2, minutes_snoc, chronicle_update_max _ h.le_last,
      csvLines_append, csvLines_singleton] at hafter
    simp only [List.length_append, writeAt_length (Nat.zero_le _), List.length_nil] at hbefore hafter
    have := List.length_pos_iff.2 hold
    have := strData_length_pos x.sample x.rtc.time
    simp only [Consumed.line] at hafter
    omega

/-- **Conservation of the log**: an undisturbed run conserves it at every point
    iff no two samples fall in second 59 of the same minute. -/
theorem conserved_iff {xs : List Consumed} (h : Undisturbed pool xs) :
    (∀ ys, ys <+: xs → Conserved pool ys) ↔ OneFlushAMinute xs := by
  refine ⟨oneFlush_of_conserved h, fun hone ys hy => conserved_of_oneFlush (h.mono hy) ?_⟩
  exact hone.sublist ((hy.sublist.filter _).map _)

theorem saveRun_contents_le (pool : ℕ → UInt8) (xs : List Consumed) :
    (saveRun pool xs).rb.contents.length ≤ (csvLines xs).length := by
  induction xs using List.reverseRecOn with
  | nil => exact le_rfl
  | append_singleton xs x ih =>
    rw [saveRun_snoc, consume_contents, csvLines_append, csvLines_singleton, List.length_append]
    split
    · exact Nat.zero_le _
    · rw [RtRingbuffer.contents_put, List.length_append]
      exact Nat.add_le_add ih (List.length_take_le' _ _)

theorem undisturbed_of_short (pool : ℕ → UInt8) {xs : List Consumed}
    (ho : (xs.map fun x => x.rtc.stamp).Pairwise (· ≤ ·)) (hl : (csvLines xs).length ≤ 4068)
    (hio : ∀ x ∈ xs, (3 ≤ x.io.fd ∧ x.io.fd < 19) ∧ ∀ k, threshold ≤ x.io.write k) :
    Undisturbed pool xs where
  ordered := ho
  never_fills ys x hx := by
    obtain ⟨zs, rfl⟩ := hx
    have := saveRun_contents_le pool ys
    rw [csvLines_append, csvLines_append, csvLines_singleton] at hl
    simp only [List.length_append] at hl; omega
  no_error ys x hx _ := by
    obtain ⟨hfd, hw⟩ := hio x (hx.subset (by simp))
    refine ⟨hfd, fun j _ => ?_⟩
    have := hw (0 + j)
    rw [List.length_take]; omega

end

def flushSample : Consumed := ⟨⟨25, 60⟩, ⟨⟨12, 30, 59⟩, ⟨2021, 4, 24⟩⟩, ⟨3, fun _ => 2034⟩⟩

theorem flushSample_card {xs : List Consumed} (h : ∀ x ∈ xs, x.io = flushSample.io) :
    ∀ x ∈ xs, (3 ≤ x.io.fd ∧ x.io.fd < 19) ∧ ∀ k, threshold ≤ x.io.write k := by
  intro x hx
  rw [h x hx]
  exact ⟨by decide, fun _ => le_rfl⟩

theorem conserved_iff_noon : OneFlushAMinute [noonSample, flushSample] ∧
    ∀ ys, ys <+: [noonSample, flushSample] → Conserved (fun _ => 0) ys := by
  have hone : OneFlushAMinute [noonSample, flushSample] := List.nodup_singleton _
  refine ⟨hone, (conserved_iff (undisturbed_of_short _ ?_ (by decide) (flushSample_card ?_))).2 hone⟩
  · decide
  · simp [noonSample, flushSample]

/-- Two samples in one second 59: the second flush overwrites the first line. -/
theorem not_conserved : ¬ ∀ (pool : ℕ → UInt8) (xs : List Consumed), Undisturbed pool xs →
    ∀ ys, ys <+: xs → Conserved pool ys := by
  intro h
  have hu : Undisturbed (fun _ => 0) [flushSample, flushSample] :=
    undisturbed_of_short _ (by decide) (by decide) (flushSample_card (by simp))
  have hone := oneFlush_of_conserved hu (h _ _ hu)
  exact absurd hone (List.not_nodup_cons_of_mem List.mem_cons_self)

end DataRecorder
