/-
  The body of `save_data_entry`: formatting a sample into the ring buffer, and
  the flush of the ring buffer to the minute file when the clock shows second 59.

  The file system is a map from paths to contents.  What the calls of a flush
  return is an input (`Io`): `open` succeeds with a descriptor or fails with a
  negative result, and the `k`-th `write` reports how much of its chunk it
  stored.  (The result of `mkdir` is not looked at.)

  * `flush_contents`, `flush_written`, `flush_files`: what a flush leaves in the
    ring buffer, what it stores, and where;
  * `flush_keepsData_iff`: the flushes that lose nothing;
  * `saveRun` is the state after a sequence of consumed samples.
-/
import DataRecorder.Logger.RingBuffer
import DataRecorder.Logger.Csv
import Mathlib.Data.List.TakeDrop
import Mathlib.Data.List.Induction

namespace DataRecorder

open Base

/-- `RINGBUFFERSIZE`. -/
def ringBufferSize : ℕ := 4069

/-- `THRESHOLD`, the size of the chunks of a flush. -/
def threshold : ℕ := ringBufferSize / 2

/-- A file system: the contents of the files that exist. -/
abbrev Files := List UInt8 → Option (List UInt8)

/-- What the file operations of one flush return. -/
structure Io where
  /-- the result of `open`: a descriptor, or negative for a failure -/
  fd : ℤ
  /-- the result of the `k`-th `write` -/
  write : ℕ → ℤ

/-- Conversion to `char`, which is unsigned on this target. -/
def toChar (n : ℤ) : ℤ := n % 256

/-- `open(name, O_RDWR | O_CREAT)` creates a missing file and keeps the content
    of an existing one. -/
def openFile (files : Files) (name : List UInt8) : Files :=
  Function.update files name (some ((files name).getD []))

/-- The content of a file after `buf` was stored at position `pos`. -/
def writeAt (content : List UInt8) (pos : ℕ) (buf : List UInt8) : List UInt8 :=
  content.take pos ++ buf ++ content.drop (pos + buf.length)

/-- The state of the drain loop of a flush: the ring buffer, the file system,
    the position in the open file, the bytes stored so far and the number of
    `write` calls. -/
structure Drain where
  rb : RtRingbuffer
  files : Files
  pos : ℕ
  written : List UInt8
  calls : ℕ

namespace Io

/-- The descriptor that `write` is called with is the one `open` returned. -/
def Opened (io : Io) : Prop := 0 ≤ io.fd ∧ toChar io.fd = io.fd

instance (io : Io) : Decidable io.Opened := inferInstanceAs (Decidable (_ ∧ _))

/-- The part of a chunk that the `k`-th `write` stores.  A descriptor that is not
    open makes it fail. -/
def stored (io : Io) (k : ℕ) (chunk : List UInt8) : List UInt8 :=
  if io.Opened then chunk.take (io.write k).toNat else []

end Io

/-- One pass of the drain loop: `rt_ringbuffer_get` of a chunk, then `write`. -/
def Drain.step (io : Io) (name : List UInt8) (s : Drain) : Drain :=
  let chunk := (rtRingbufferGet s.rb threshold).2
  let out := io.stored s.calls chunk
  { rb := (rtRingbufferGet s.rb threshold).1
    files := if io.Opened then
        Function.update s.files name (some (writeAt ((s.files name).getD []) s.pos out))
      else s.files
    pos := s.pos + out.length
    written := s.written ++ out
    calls := s.calls + 1 }

theorem Drain.step_contents (io : Io) (name : List UInt8) (s : Drain) :
    (s.step io name).rb.contents = s.rb.contents.drop threshold :=
  (s.rb.contents_get threshold).2

theorem Drain.step_dataLen (io : Io) (name : List UInt8) {s : Drain} (h : rtRingbufferDataLen s.rb ≠ 0) :
    rtRingbufferDataLen (s.step io name).rb < rtRingbufferDataLen s.rb := by
  rw [← RtRingbuffer.contents_length, ← RtRingbuffer.contents_length, step_contents, List.length_drop]
  rw [← RtRingbuffer.contents_length] at h
  have : threshold = 2034 := rfl
  omega

/-- `while (rt_ringbuffer_data_len(recvdatabuf)) ...`. -/
def drain (io : Io) (name : List UInt8) (s : Drain) : Drain :=
  if _h : rtRingbufferDataLen s.rb = 0 then s else drain io name (s.step io name)
termination_by rtRingbufferDataLen s.rb
decreasing_by exact Drain.step_dataLen io name _h

/-- The flush: `mkdir`, `open`, and the drain loop unless the descriptor, kept in
    a `char`, equals `NULL`.  The last component is what was stored. -/
def flush (io : Io) (r : Rtc) (rb : RtRingbuffer) (files : Files) : RtRingbuffer × Files × List UInt8 :=
  let name := csvName r
  let recvdatafileP0 := toChar io.fd
  let files := if 0 ≤ io.fd then openFile files name else files
  if recvdatafileP0 ≠ 0 then
    let s := drain io name ⟨rb, files, 0, [], 0⟩
    (s.rb, s.files, s.written)
  else (rb, files, [])

/-! ## The drain loop -/

/-- The bytes that the `write` calls from the `k`-th on store of the data `l`. -/
def storedFrom (io : Io) (k : ℕ) (l : List UInt8) : List UInt8 :=
  if _h : l = [] then [] else io.stored k (l.take threshold) ++ storedFrom io (k + 1) (l.drop threshold)
termination_by l.length
decreasing_by
  have := List.length_pos_iff.2 _h
  simp only [List.length_drop, threshold, ringBufferSize]; omega

/-- The `write` calls from the `k`-th on store all of the data `l`. -/
def Io.WritesAll (io : Io) (k : ℕ) (l : List UInt8) : Prop :=
  ∀ j, threshold * j < l.length → ((l.drop (threshold * j)).take threshold).length ≤ io.write (k + j)

theorem Io.writesAll_nil (io : Io) (k : ℕ) : io.WritesAll k [] := fun j h => by simp at h

theorem Io.writesAll_drop {io : Io} {k : ℕ} {l : List UInt8} (hl : l ≠ []) :
    io.WritesAll k l ↔
      (l.take threshold).length ≤ io.write k ∧ io.WritesAll (k + 1) (l.drop threshold) := by
  have hpos := List.length_pos_iff.2 hl
  constructor
  · intro h
    refine ⟨by simpa using h 0 (by simpa using hpos), fun j hj => ?_⟩
    rw [List.length_drop] at hj
    have := h (j + 1) (by rw [Nat.mul_add]; omega)
    rwa [show k + (j + 1) = k + 1 + j by omega, Nat.mul_add, Nat.mul_one, Nat.add_comm _ threshold,
      ← List.drop_drop] at this
  · rintro ⟨h₀, h⟩ (_ | j) hj
    · simpa using h₀
    · have := h j (by rw [List.length_drop]; rw [Nat.mul_add] at hj; omega)
      rwa [show k + (j + 1) = k + 1 + j by omega, Nat.mul_add, Nat.mul_one, Nat.add_comm _ threshold,
        ← List.drop_drop]

theorem stored_length_le (io : Io) (k : ℕ) (chunk : List UInt8) :
    (io.stored k chunk).length ≤ chunk.length := by
  unfold Io.stored; split
  · exact List.length_take_le' _ _
  · exact Nat.zero_le _

theorem stored_eq_iff {io : Io} (ho : io.Opened) {k : ℕ} {chunk : List UInt8} (hc : chunk ≠ []) :
    io.stored k chunk = chunk ↔ chunk.length ≤ io.write k := by
  have hpos := List.length_pos_iff.2 hc
  rw [Io.stored, if_pos ho, List.take_eq_self_iff]
  omega

theorem storedFrom_length_le (io : Io) (k : ℕ) (l : List UInt8) :
    (storedFrom io k l).length ≤ l.length := by
  fun_induction storedFrom io k l with
  | case1 => simp
  | case2 k l hl ih =>
    have := stored_length_le io k (l.take threshold)
    rw [List.length_take] at this
    rw [List.length_drop] at ih
    rw [List.length_append]; omega

theorem storedFrom_closed {io : Io} (ho : ¬ io.Opened) (k : ℕ) (l : List UInt8) : storedFrom io k l = [] := by
  fun_induction storedFrom io k l with
  | case1 => rfl
  | case2 k l hl ih => rw [ih, Io.stored, if_neg ho]; rfl

/-- The data is stored whole iff every `write` call stores its whole chunk. -/
theorem storedFrom_eq_iff {io : Io} (ho : io.Opened) (k : ℕ) (l : List UInt8) :
    storedFrom io k l = l ↔ io.WritesAll k l := by
  fun_induction storedFrom io k l with
  | case1 k => simp [io.writesAll_nil k]
  | case2 k l hl ih =>
    have hchunk : l.take threshold ≠ [] := by
      simp [List.take_eq_nil_iff, hl, threshold, ringBufferSize]
    rw [Io.writesAll_drop hl, ← ih, ← stored_eq_iff ho hchunk]
    constructor
    · intro h
      -- neither part is longer than the part of the data it comes from
      have h₁ := stored_length_le io k (l.take threshold)
      have h₂ := storedFrom_length_le io (k + 1) (l.drop threshold)
      have hlen := congrArg List.length h
      rw [List.length_append] at hlen
      rw [List.length_take] at h₁
      rw [List.length_drop] at h₂
      exact List.append_inj (h.trans (List.take_append_drop threshold l).symm)
        (by rw [List.length_take]; omega)
    · rintro ⟨h₁, h₂⟩
      rw [h₁, h₂, List.take_append_drop]

theorem writeAt_append {content : List UInt8} {pos : ℕ} (hp : pos ≤ content.length) (a b : List UInt8) :
    writeAt (writeAt content pos a) (pos + a.length) b = writeAt content pos (a ++ b) := by
  have hlen : (content.take pos ++ a).length = pos + a.length := by simp; omega
  simp only [writeAt]
  rw [List.take_append_of_le_length hlen.ge, ← hlen, List.take_length, List.drop_append,
    List.drop_of_length_le (by omega), List.drop_drop]
  simp only [List.nil_append, List.append_assoc, List.length_append, List.length_take]
  congr 4
  omega

theorem writeAt_nil (content : List UInt8) (pos : ℕ) : writeAt content pos [] = content := by
  simp [writeAt]

theorem writeAt_length {content : List UInt8} {pos : ℕ} (hp : pos ≤ content.length) (a : List UInt8) :
    (writeAt content pos a).length = max content.length (pos + a.length) := by
  simp only [writeAt, List.length_append, List.length_take, List.length_drop]; omega

section
variable (io : Io) (name : List UInt8) (s : Drain)

theorem drain_contents : (drain io name s).rb.contents = [] := by
  fun_induction drain io name s with
  | case1 s h => rwa [← RtRingbuffer.contents_length, List.length_eq_zero_iff] at h
  | case2 s h ih => exact ih

theorem drain_bufferSize : (drain io name s).rb.bufferSize = s.rb.bufferSize := by
  fun_induction drain io name s with
  | case1 s h => rfl
  | case2 s h ih => rw [ih]; exact s.rb.get_bufferSize threshold

theorem contents_ne_nil {rb : RtRingbuffer} (h : ¬ rtRingbufferDataLen rb = 0) : rb.contents ≠ [] := by
  intro h'; rw [← RtRingbuffer.contents_length, h'] at h; exact h rfl

theorem drain_written :
    (drain io name s).written = s.written ++ storedFrom io s.calls s.rb.contents := by
  fun_induction drain io name s with
  | case1 s h =>
    rw [← RtRingbuffer.contents_length, List.length_eq_zero_iff] at h
    rw [h, storedFrom, dif_pos rfl, List.append_nil]
  | case2 s h ih =>
    rw [ih, Drain.step_contents, storedFrom.eq_1 io s.calls, dif_neg (contents_ne_nil h), ← List.append_assoc]
    simp only [Drain.step, (s.rb.contents_get threshold).1]

theorem drain_files_closed (ho : ¬ io.Opened) : (drain io name s).files = s.files := by
  fun_induction drain io name s with
  | case1 s h => rfl
  | case2 s h ih => rw [ih]; exact if_neg ho

/-- The drain loop stores at the position of the open file, and touches no other
    file. -/
theorem drain_files (ho : io.Opened) {c : List UInt8} (hc : s.files name = some c)
    (hp : s.pos ≤ c.length) :
    (drain io name s).files =
      Function.update s.files name (some (writeAt c s.pos (storedFrom io s.calls s.rb.contents))) := by
  fun_induction drain io name s generalizing c with
  | case1 s h =>
    rw [← RtRingbuffer.contents_length, List.length_eq_zero_iff] at h
    rw [h, storedFrom, dif_pos rfl, writeAt_nil, ← hc, Function.update_eq_self]
  | case2 s h ih =>
    obtain ⟨out, hout⟩ : ∃ o, o = io.stored s.calls (s.rb.contents.take threshold) := ⟨_, rfl⟩
    have hfiles : (s.step io name).files = Function.update s.files name (some (writeAt c s.pos out)) := by
      simp only [Drain.step, if_pos ho, hc, Option.getD_some, (s.rb.contents_get threshold).1, hout]
    have hpos : (s.step io name).pos = s.pos + out.length := by
      simp only [Drain.step, (s.rb.contents_get threshold).1, hout]
    rw [ih (by rw [hfiles, Function.update_self]) (by rw [hpos, writeAt_length hp]; omega), hfiles, hpos,
      Function.update_idem, writeAt_append hp, Drain.step_contents, storedFrom.eq_1 io s.calls,
      dif_neg (contents_ne_nil h), hout]
    rfl

end

/-! ## The flush -/

section
variable (io : Io) (r : Rtc) (rb : RtRingbuffer) (files : Files)

@[simp] theorem flush_bufferSize : (flush io r rb files).1.bufferSize = rb.bufferSize := by
  unfold flush; dsimp only; split
  · exact drain_bufferSize ..
  · rfl

/-- A flush empties the ring buffer, unless it finds the descriptor `NULL`. -/
theorem flush_contents :
    (flush io r rb files).1.contents = if toChar io.fd = 0 then rb.contents else [] := by
  unfold flush; dsimp only
  by_cases h : toChar io.fd = 0
  · rw [if_neg (not_not.2 h), if_pos h]
  · rw [if_pos h, if_neg h]; exact drain_contents ..

theorem flush_written :
    (flush io r rb files).2.2 = if toChar io.fd = 0 then [] else storedFrom io 0 rb.contents := by
  unfold flush; dsimp only
  by_cases h : toChar io.fd = 0
  · rw [if_neg (not_not.2 h), if_pos h]
  · rw [if_pos h, if_neg h]; exact (drain_written ..).trans (List.nil_append _)

/-- What a flush stores is written over the start of the minute file. -/
theorem flush_files (ho : io.Opened) (h0 : toChar io.fd ≠ 0) :
    (flush io r rb files).2.1 = Function.update files (csvName r)
      (some (writeAt ((files (csvName r)).getD []) 0 (flush io r rb files).2.2)) := by
  rw [flush_written, if_neg h0]
  unfold flush; dsimp only
  rw [if_pos h0, if_pos ho.1]
  show (drain io (csvName r) _).files = _
  rw [drain_files io (csvName r) _ ho (c := (files (csvName r)).getD [])
    (by simp [openFile]) (Nat.zero_le _)]
  simp [openFile]

/-- The flush removes from the ring buffer only what it stored in a file that it
    opened. -/
def KeepsData : Prop :=
  rb.contents = (flush io r rb files).2.2 ++ (flush io r rb files).1.contents

/-- **When a flush keeps the data**: iff there is none, or `open` returned a
    descriptor that `char` turns into `NULL`, or the file was opened and every
    `write` stored its whole chunk. -/
theorem flush_keepsData_iff :
    KeepsData io r rb files ↔
      rb.contents = [] ∨ toChar io.fd = 0 ∨ (io.Opened ∧ io.WritesAll 0 rb.contents) := by
  unfold KeepsData
  rw [flush_written, flush_contents]
  by_cases h0 : toChar io.fd = 0
  · simp [h0]
  rw [if_neg h0, if_neg h0, List.append_nil]
  by_cases ho : io.Opened
  · rw [eq_comm, storedFrom_eq_iff ho]
    constructor
    · exact fun h => Or.inr (Or.inr ⟨ho, h⟩)
    · rintro (h | h | h)
      · rw [h]; exact io.writesAll_nil 0
      · exact absurd h h0
      · exact h.2
  · rw [storedFrom_closed ho]
    simp [h0, ho]

end

/-- Without the card `open` fails, and the flush throws the buffered line away. -/
theorem flush_loses_data : ¬ ∀ (io : Io) (r : Rtc) (rb : RtRingbuffer) (files : Files),
    KeepsData io r rb files := by
  intro h
  have h := h ⟨-1, fun _ => -1⟩ ⟨⟨12, 30, 59⟩, ⟨2021, 4, 24⟩⟩
    (rtRingbufferPut (rtRingbufferInit (fun _ => 0) 4068 (by decide)) [50]).1 (fun _ => none)
  unfold KeepsData at h
  rw [flush_written, flush_contents, storedFrom_closed (by decide), RtRingbuffer.contents_put_fit] at h
  · revert h; decide
  · decide

/-! ## The iterations -/

/-- A sample that the thread consumes: the message, the clock reading in the
    globals while it is processed, and the results of the flush it may cause. -/
structure Consumed where
  sample : SensorData
  rtc : Rtc
  io : Io

def Consumed.line (x : Consumed) : List UInt8 := strData x.sample x.rtc.time

structure Saver where
  rb : RtRingbuffer
  files : Files

/-- `rt_ringbuffer_create(RINGBUFFERSIZE)`, on the memory that was allocated. -/
def rtRingbufferCreate (pool : ℕ → UInt8) : RtRingbuffer :=
  rtRingbufferInit pool (rtAlignDown 4069 4).toNat (by decide)

/-- One iteration of `save_data_entry`, from the received message on. -/
def Saver.consume (s : Saver) (x : Consumed) : Saver :=
  let rb := (rtRingbufferPut s.rb x.line).1
  if x.rtc.time.seconds = 59 then
    let f := flush x.io x.rtc rb s.files
    ⟨f.1, f.2.1⟩
  else ⟨rb, s.files⟩

/-- The state after the samples `xs`, from an empty card. -/
def saveRun (pool : ℕ → UInt8) (xs : List Consumed) : Saver :=
  xs.foldl Saver.consume ⟨rtRingbufferCreate pool, fun _ => none⟩

section
variable (pool : ℕ → UInt8)

theorem saveRun_snoc (xs : List Consumed) (x : Consumed) :
    saveRun pool (xs ++ [x]) = (saveRun pool xs).consume x := by
  simp [saveRun]

theorem saveRun_nil_contents : (saveRun pool []).rb.contents = [] := rfl

theorem consume_bufferSize (s : Saver) (x : Consumed) : (s.consume x).rb.bufferSize = s.rb.bufferSize := by
  unfold Saver.consume; dsimp only; split <;> simp

theorem saveRun_bufferSize (xs : List Consumed) : (saveRun pool xs).rb.bufferSize = 4068 := by
  induction xs using List.reverseRecOn with
  | nil => rfl
  | append_singleton xs x ih => rw [saveRun_snoc, consume_bufferSize, ih]

end

end DataRecorder
