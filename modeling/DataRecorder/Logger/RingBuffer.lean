/-
  The ring buffer of RT-Thread (`components/drivers/src/ringbuffer.c`).

  The buffer keeps a read and a write index, each with a mirror bit that flips
  when the index wraps.  Equal indices mean an empty buffer when the mirrors
  agree and a full one when they differ.

  * `contents` is the byte queue that a buffer stands for;
  * `contents_put` and `contents_get`: `rt_ringbuffer_put` appends as many bytes
    as there is space for, `rt_ringbuffer_get` takes bytes off the front.
-/
import DataRecorder.Base.Memory

namespace DataRecorder

open Base

def rtAlignDown (size align : UInt32) : UInt32 := size &&& ~~~(align - 1)

/-- `struct rt_ringbuffer`.  The last three fields hold of every buffer that
    `rt_ringbuffer_init` sets up and the operations below leave behind. -/
structure RtRingbuffer where
  bufferPtr : ℕ → UInt8
  readMirror : Bool
  readIndex : ℕ
  writeMirror : Bool
  writeIndex : ℕ
  bufferSize : ℕ
  read_lt : readIndex < bufferSize
  write_lt : writeIndex < bufferSize
  order : if readMirror = writeMirror then readIndex ≤ writeIndex else writeIndex ≤ readIndex

inductive RtRingbufferState where
  | empty
  | full
  | halffull

def rtRingbufferStatus (rb : RtRingbuffer) : RtRingbufferState :=
  if rb.readIndex = rb.writeIndex then
    if rb.readMirror = rb.writeMirror then .empty else .full
  else .halffull

def rtRingbufferDataLen (rb : RtRingbuffer) : ℕ :=
  match rtRingbufferStatus rb with
  | .empty => 0
  | .full => rb.bufferSize
  | .halffull =>
    if rb.writeIndex > rb.readIndex then rb.writeIndex - rb.readIndex
    else rb.bufferSize - (rb.readIndex - rb.writeIndex)

def rtRingbufferSpaceLen (rb : RtRingbuffer) : ℕ := rb.bufferSize - rtRingbufferDataLen rb

/-- `rt_ringbuffer_init`, on a pool of `size` bytes. -/
def rtRingbufferInit (pool : ℕ → UInt8) (size : ℕ) (h : 0 < size) : RtRingbuffer where
  bufferPtr := pool
  readMirror := false
  readIndex := 0
  writeMirror := false
  writeIndex := 0
  bufferSize := size
  read_lt := h
  write_lt := h
  order := by simp

/-! ## The amount of data -/

theorem dataLen_same {rb : RtRingbuffer} (h : rb.readMirror = rb.writeMirror) :
    rb.readIndex ≤ rb.writeIndex ∧ rtRingbufferDataLen rb = rb.writeIndex - rb.readIndex := by
  have ho := rb.order
  rw [if_pos h] at ho
  refine ⟨ho, ?_⟩
  unfold rtRingbufferDataLen rtRingbufferStatus
  by_cases he : rb.readIndex = rb.writeIndex
  · simp [he, h]
  · have : rb.writeIndex > rb.readIndex := by omega
    simp [he, this]

theorem dataLen_diff {rb : RtRingbuffer} (h : rb.readMirror ≠ rb.writeMirror) :
    rb.writeIndex ≤ rb.readIndex ∧
      rtRingbufferDataLen rb = rb.bufferSize - rb.readIndex + rb.writeIndex := by
  have ho := rb.order
  rw [if_neg h] at ho
  have hr := rb.read_lt
  refine ⟨ho, ?_⟩
  unfold rtRingbufferDataLen rtRingbufferStatus
  by_cases he : rb.readIndex = rb.writeIndex
  · simp only [he, h, ↓reduceIte]; omega
  · have : ¬ rb.writeIndex > rb.readIndex := by omega
    simp only [he, this, ↓reduceIte]; omega

theorem dataLen_le (rb : RtRingbuffer) : rtRingbufferDataLen rb ≤ rb.bufferSize := by
  have hr := rb.read_lt
  have hw := rb.write_lt
  by_cases h : rb.readMirror = rb.writeMirror
  · obtain ⟨-, he⟩ := dataLen_same h; omega
  · obtain ⟨ho, he⟩ := dataLen_diff h; omega

/-! ## Putting and getting blocks -/

/-- The `order` field after the write index moved by `length`, within the space. -/
theorem put_order {rb : RtRingbuffer} {length : ℕ} (hl : length ≤ rtRingbufferSpaceLen rb)
    (h : rb.bufferSize - rb.writeIndex > length) :
    if rb.readMirror = rb.writeMirror then rb.readIndex ≤ rb.writeIndex + length
    else rb.writeIndex + length ≤ rb.readIndex := by
  unfold rtRingbufferSpaceLen at hl
  have hr := rb.read_lt
  split
  · rename_i hm; obtain ⟨ho, -⟩ := dataLen_same hm; omega
  · rename_i hm; obtain ⟨ho, he⟩ := dataLen_diff hm; omega

theorem put_order_wrap {rb : RtRingbuffer} {length : ℕ} (hl : length ≤ rtRingbufferSpaceLen rb)
    (h : ¬ rb.bufferSize - rb.writeIndex > length) :
    if rb.readMirror = !rb.writeMirror then rb.readIndex ≤ length - (rb.bufferSize - rb.writeIndex)
    else length - (rb.bufferSize - rb.writeIndex) ≤ rb.readIndex := by
  unfold rtRingbufferSpaceLen at hl
  have hr := rb.read_lt
  have hw := rb.write_lt
  by_cases hm : rb.readMirror = rb.writeMirror
  · obtain ⟨ho, he⟩ := dataLen_same hm
    rw [if_neg (by simp [hm])]; omega
  · obtain ⟨ho, he⟩ := dataLen_diff hm
    omega

theorem space_lt_size_of_wrap {rb : RtRingbuffer} {length : ℕ} (hl : length ≤ rtRingbufferSpaceLen rb) :
    length - (rb.bufferSize - rb.writeIndex) < rb.bufferSize := by
  have := rb.write_lt
  unfold rtRingbufferSpaceLen at hl; omega

/-- The copies that `rt_ringbuffer_put` makes, for a length within the space. -/
def RtRingbuffer.store (rb : RtRingbuffer) (ptr : List UInt8) (length : ℕ)
    (hl : length ≤ rtRingbufferSpaceLen rb) : RtRingbuffer :=
  if h : rb.bufferSize - rb.writeIndex > length then
    { rb with
      bufferPtr := blit rb.bufferPtr rb.writeIndex (ptr.take length)
      writeIndex := rb.writeIndex + length
      write_lt := by omega
      order := put_order hl h }
  else
    let first := rb.bufferSize - rb.writeIndex
    { rb with
      bufferPtr := blit (blit rb.bufferPtr rb.writeIndex (ptr.take first)) 0
        ((ptr.drop first).take (length - first))
      writeMirror := !rb.writeMirror
      writeIndex := length - first
      write_lt := space_lt_size_of_wrap hl
      order := put_order_wrap hl h }

/-- `rt_ringbuffer_put`: the buffer afterwards and the returned length.  What
    exceeds the space is dropped. -/
def rtRingbufferPut (rb : RtRingbuffer) (ptr : List UInt8) : RtRingbuffer × ℕ :=
  if rtRingbufferSpaceLen rb = 0 then (rb, 0)
  else if h : rtRingbufferSpaceLen rb < ptr.length then
    (rb.store ptr (rtRingbufferSpaceLen rb) le_rfl, rtRingbufferSpaceLen rb)
  else (rb.store ptr ptr.length (Nat.not_lt.1 h), ptr.length)

theorem get_order {rb : RtRingbuffer} {length : ℕ} (hl : length ≤ rtRingbufferDataLen rb) :
    if rb.readMirror = rb.writeMirror then rb.readIndex + length ≤ rb.writeIndex
    else rb.writeIndex ≤ rb.readIndex + length := by
  split
  · rename_i hm; obtain ⟨ho, he⟩ := dataLen_same hm; omega
  · rename_i hm; obtain ⟨ho, -⟩ := dataLen_diff hm; omega

theorem get_order_wrap {rb : RtRingbuffer} {length : ℕ} (hl : length ≤ rtRingbufferDataLen rb)
    (h : ¬ rb.bufferSize - rb.readIndex > length) :
    if (!rb.readMirror) = rb.writeMirror then length - (rb.bufferSize - rb.readIndex) ≤ rb.writeIndex
    else rb.writeIndex ≤ length - (rb.bufferSize - rb.readIndex) := by
  have hr := rb.read_lt
  have hw := rb.write_lt
  by_cases hm : rb.readMirror = rb.writeMirror
  · obtain ⟨ho, he⟩ := dataLen_same hm; omega
  · obtain ⟨ho, he⟩ := dataLen_diff hm
    rw [if_pos (Bool.not_eq.2 hm)]; omega

theorem len_lt_size_of_wrap {rb : RtRingbuffer} {length : ℕ} (hl : length ≤ rtRingbufferDataLen rb) :
    length - (rb.bufferSize - rb.readIndex) < rb.bufferSize := by
  have := rb.read_lt
  have := dataLen_le rb; omega

/-- The copies that `rt_ringbuffer_get` makes, for a length within the data. -/
def RtRingbuffer.fetch (rb : RtRingbuffer) (length : ℕ) (hl : length ≤ rtRingbufferDataLen rb) :
    RtRingbuffer × List UInt8 :=
  if h : rb.bufferSize - rb.readIndex > length then
    ({ rb with
        readIndex := rb.readIndex + length
        read_lt := by omega
        order := get_order hl }, slice rb.bufferPtr rb.readIndex length)
  else
    let first := rb.bufferSize - rb.readIndex
    ({ rb with
        readMirror := !rb.readMirror
        readIndex := length - first
        read_lt := len_lt_size_of_wrap hl
        order := get_order_wrap hl h },
      slice rb.bufferPtr rb.readIndex first ++ slice rb.bufferPtr 0 (length - first))

/-- `rt_ringbuffer_get`: the buffer afterwards and the bytes copied out (their
    number is the returned length). -/
def rtRingbufferGet (rb : RtRingbuffer) (length : ℕ) : RtRingbuffer × List UInt8 :=
  if rtRingbufferDataLen rb = 0 then (rb, [])
  else if h : rtRingbufferDataLen rb < length then rb.fetch (rtRingbufferDataLen rb) le_rfl
  else rb.fetch length (Nat.not_lt.1 h)

/-! ## The queue of bytes -/

namespace RtRingbuffer

/-- The bytes that the buffer holds, oldest first. -/
def contents (rb : RtRingbuffer) : List UInt8 :=
  if rb.readMirror = rb.writeMirror then slice rb.bufferPtr rb.readIndex (rb.writeIndex - rb.readIndex)
  else slice rb.bufferPtr rb.readIndex (rb.bufferSize - rb.readIndex) ++ slice rb.bufferPtr 0 rb.writeIndex

variable (rb : RtRingbuffer)

@[simp] theorem contents_length : rb.contents.length = rtRingbufferDataLen rb := by
  unfold contents
  by_cases h : rb.readMirror = rb.writeMirror
  · rw [if_pos h, (dataLen_same h).2, slice_length]
  · rw [if_neg h, (dataLen_diff h).2, List.length_append, slice_length, slice_length]

theorem contents_length_le : rb.contents.length ≤ rb.bufferSize := by
  rw [contents_length]; exact dataLen_le rb

theorem contents_same {rb : RtRingbuffer} (h : rb.readMirror = rb.writeMirror) :
    rb.contents = slice rb.bufferPtr rb.readIndex (rb.writeIndex - rb.readIndex) := if_pos h

theorem contents_diff {rb : RtRingbuffer} (h : rb.readMirror ≠ rb.writeMirror) :
    rb.contents = slice rb.bufferPtr rb.readIndex (rb.bufferSize - rb.readIndex) ++
      slice rb.bufferPtr 0 rb.writeIndex := if_neg h

/-! ## What the operations do to the queue -/

/-- Where there is room up to the end of the pool, the last block is extended. -/
theorem contents_store_fit {ptr : List UInt8} {length : ℕ} (hl : length ≤ rtRingbufferSpaceLen rb)
    (hp : length ≤ ptr.length) (hfit : rb.bufferSize - rb.writeIndex > length) :
    (rb.store ptr length hl).contents = rb.contents ++ ptr.take length := by
  have hr := rb.read_lt
  have htl : (ptr.take length).length = length := by rw [List.length_take]; omega
  have hend : rb.writeIndex + (ptr.take length).length = rb.writeIndex + length := by rw [htl]
  rw [store, dif_pos hfit]
  by_cases hm : rb.readMirror = rb.writeMirror
  · obtain ⟨ho, -⟩ := dataLen_same hm
    rw [contents_same hm, contents_same (by exact hm)]
    exact slice_blit_extend _ ho hend
  · obtain ⟨ho, he⟩ := dataLen_diff hm
    unfold rtRingbufferSpaceLen at hl
    have hfirst : slice (blit rb.bufferPtr rb.writeIndex (ptr.take length)) rb.readIndex
        (rb.bufferSize - rb.readIndex) = slice rb.bufferPtr rb.readIndex (rb.bufferSize - rb.readIndex) :=
      slice_blit_outside _ (Or.inr (by omega))
    have hsecond : slice (blit rb.bufferPtr rb.writeIndex (ptr.take length)) 0 (rb.writeIndex + length) =
        slice rb.bufferPtr 0 rb.writeIndex ++ ptr.take length :=
      slice_blit_extend _ (Nat.zero_le _) hend
    rw [contents_diff hm, contents_diff (by exact hm), List.append_assoc, ← hsecond, ← hfirst]

/-- Otherwise the data is in one block, and what is stored is cut where the pool ends. -/
theorem contents_store_wrap {ptr : List UInt8} {length : ℕ} (hl : length ≤ rtRingbufferSpaceLen rb)
    (hp : length ≤ ptr.length) (hwrap : ¬ rb.bufferSize - rb.writeIndex > length) :
    (rb.store ptr length hl).contents = rb.contents ++ ptr.take length := by
  have hr := rb.read_lt
  have hw := rb.write_lt
  have hspace := hl
  unfold rtRingbufferSpaceLen at hspace
  have hm : rb.readMirror = rb.writeMirror := by
    by_contra hm
    obtain ⟨ho, he⟩ := dataLen_diff hm
    omega
  obtain ⟨ho, he⟩ := dataLen_same hm
  obtain ⟨first, hf⟩ : ∃ f, f = rb.bufferSize - rb.writeIndex := ⟨_, rfl⟩
  have h₁ : rb.writeIndex + (ptr.take first).length = rb.bufferSize := by rw [List.length_take]; omega
  have h₂ : ((ptr.drop first).take (length - first)).length = length - first := by simp; omega
  rw [store, dif_neg hwrap, contents_same hm, contents_diff (by simp [hm])]
  simp only [← hf]
  have hhi : slice (blit (blit rb.bufferPtr rb.writeIndex (ptr.take first)) 0
      ((ptr.drop first).take (length - first))) rb.readIndex (rb.bufferSize - rb.readIndex) =
      slice rb.bufferPtr rb.readIndex (rb.writeIndex - rb.readIndex) ++ ptr.take first := by
    rw [slice_blit_outside _ (Or.inr (by omega)), slice_blit_extend _ ho h₁]
  have hlo : slice (blit (blit rb.bufferPtr rb.writeIndex (ptr.take first)) 0
      ((ptr.drop first).take (length - first))) 0 (length - first) =
      (ptr.drop first).take (length - first) := slice_blit_eq _ _ h₂
  rw [hhi, hlo, List.append_assoc, ← List.take_add, show first + (length - first) = length by omega]

theorem contents_store {ptr : List UInt8} {length : ℕ} (hl : length ≤ rtRingbufferSpaceLen rb)
    (hp : length ≤ ptr.length) : (rb.store ptr length hl).contents = rb.contents ++ ptr.take length := by
  by_cases hfit : rb.bufferSize - rb.writeIndex > length
  · exact rb.contents_store_fit hl hp hfit
  · exact rb.contents_store_wrap hl hp hfit

@[simp] theorem store_bufferSize (ptr : List UInt8) (length : ℕ) (hl : length ≤ rtRingbufferSpaceLen rb) :
    (rb.store ptr length hl).bufferSize = rb.bufferSize := by unfold store; split <;> rfl

/-- **`rt_ringbuffer_put` appends to the queue** what there is space for. -/
theorem contents_put (ptr : List UInt8) :
    (rtRingbufferPut rb ptr).1.contents = rb.contents ++ ptr.take (rtRingbufferSpaceLen rb) := by
  unfold rtRingbufferPut
  split
  · rename_i h; simp [h]
  split
  · rename_i h; rw [contents_store rb _ (Nat.le_of_lt h)]
  · rename_i h; rw [contents_store rb _ le_rfl, List.take_length, List.take_of_length_le (by omega)]

theorem put_length (ptr : List UInt8) :
    (rtRingbufferPut rb ptr).2 = min ptr.length (rtRingbufferSpaceLen rb) := by
  unfold rtRingbufferPut
  split
  · simp only; omega
  split <;> simp only <;> omega

@[simp] theorem put_bufferSize (ptr : List UInt8) :
    (rtRingbufferPut rb ptr).1.bufferSize = rb.bufferSize := by
  unfold rtRingbufferPut
  split
  · rfl
  · split <;> simp

theorem contents_put_fit {ptr : List UInt8} (h : rb.contents.length + ptr.length ≤ rb.bufferSize) :
    (rtRingbufferPut rb ptr).1.contents = rb.contents ++ ptr := by
  rw [contents_length] at h
  rw [contents_put, List.take_of_length_le (by unfold rtRingbufferSpaceLen; omega)]

theorem contents_fetch {length : ℕ} (hl : length ≤ rtRingbufferDataLen rb) :
    (rb.fetch length hl).2 = rb.contents.take length ∧
      (rb.fetch length hl).1.contents = rb.contents.drop length := by
  have hr := rb.read_lt
  have hw := rb.write_lt
  unfold fetch
  by_cases hm : rb.readMirror = rb.writeMirror
  · obtain ⟨ho, he⟩ := dataLen_same hm
    have hfit : rb.bufferSize - rb.readIndex > length := by omega
    rw [dif_pos hfit, contents_same hm, slice_take, slice_drop, Nat.min_eq_left (by omega)]
    refine ⟨rfl, ?_⟩
    rw [contents_same (by exact hm)]
    show slice _ _ (rb.writeIndex - (rb.readIndex + length)) = _
    rw [Nat.sub_sub]
  · obtain ⟨ho, he⟩ := dataLen_diff hm
    rw [contents_diff hm, List.take_append, List.drop_append, slice_take, slice_drop, slice_length,
      slice_take, slice_drop]
    split
    · rename_i hfit
      refine ⟨?_, ?_⟩
      · rw [Nat.min_eq_left (by omega), show length - (rb.bufferSize - rb.readIndex) = 0 by omega]
        simp
      · rw [contents_diff (by exact hm), show length - (rb.bufferSize - rb.readIndex) = 0 by omega]
        show slice _ (rb.readIndex + length) (rb.bufferSize - (rb.readIndex + length)) ++ _ = _
        rw [Nat.sub_sub]; rfl
    · rename_i hwrap
      refine ⟨?_, ?_⟩
      · rw [Nat.min_eq_right (by omega), Nat.min_eq_left (by omega)]
      · rw [contents_same (Bool.not_eq.2 hm), show rb.bufferSize - rb.readIndex - length = 0 by omega]
        simp

/-- **`rt_ringbuffer_get` takes bytes off the front of the queue.** -/
theorem contents_get (length : ℕ) :
    (rtRingbufferGet rb length).2 = rb.contents.take length ∧
      (rtRingbufferGet rb length).1.contents = rb.contents.drop length := by
  unfold rtRingbufferGet
  split
  · rename_i h
    rw [← contents_length, List.length_eq_zero_iff] at h
    simp [h]
  split
  · rename_i h
    obtain ⟨h₁, h₂⟩ := contents_fetch rb (Nat.le_refl (rtRingbufferDataLen rb))
    rw [h₁, h₂, List.take_of_length_le (by simp), List.take_of_length_le (by simp; omega),
      List.drop_of_length_le (by simp), List.drop_of_length_le (by simp; omega)]
    exact ⟨rfl, rfl⟩
  · exact contents_fetch rb _

@[simp] theorem get_bufferSize (length : ℕ) :
    (rtRingbufferGet rb length).1.bufferSize = rb.bufferSize := by
  have hf (n : ℕ) (hn : n ≤ rtRingbufferDataLen rb) : (rb.fetch n hn).1.bufferSize = rb.bufferSize := by
    unfold fetch; split <;> rfl
  unfold rtRingbufferGet
  split
  · rfl
  · split <;> exact hf ..

end RtRingbuffer

end DataRecorder
