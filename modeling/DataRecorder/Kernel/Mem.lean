/-
  The heap of the kernel (`mem.c`).

  The heap is a stretch of bytes.  Each block of it starts with a `struct heap_mem`,
  which leads to the next and to the previous block; the data follow.  Pointers to
  headers are offsets from `heap_ptr`, those that callers hold are addresses, and 0
  is the null pointer.  `none` stands for an assertion that fails or a loop that does
  not end.
-/
import DataRecorder.Base.Loop
import DataRecorder.Base.Memory
import DataRecorder.Base.Words
import DataRecorder.Kernel.Rtdef

namespace DataRecorder.Kernel

open Base

abbrev HEAP_MAGIC : UInt16 := 0x1ea0
abbrev MIN_SIZE : UInt32 := 12
abbrev MIN_SIZE_ALIGNED : UInt32 := 12
abbrev SIZEOF_STRUCT_MEM : UInt32 := 12

/-- `struct heap_mem`. -/
structure HeapMem where
  magic : UInt16
  used : UInt16
  next : UInt32
  prev : UInt32
  deriving DecidableEq

def HeapMem.bytes (x : HeapMem) : List UInt8 :=
  leBytes 2 x.magic.toNat ++ leBytes 2 x.used.toNat ++ leBytes 4 x.next.toNat ++ leBytes 4 x.prev.toNat

/-- The header in twelve bytes. -/
def HeapMem.ofBytes (l : List UInt8) : HeapMem where
  magic := .ofNat (leNat (l.take 2))
  used := .ofNat (leNat ((l.drop 2).take 2))
  next := .ofNat (leNat ((l.drop 4).take 4))
  prev := .ofNat (leNat ((l.drop 8).take 4))

/-- The static variables of `mem.c`; `mem` are the bytes from `heap_ptr` on. -/
structure Heap where
  mem : ℕ → UInt8
  heapPtr : UInt32
  heapEnd : UInt32
  lfree : UInt32
  memSizeAligned : UInt32
  usedMem : UInt32
  maxMem : UInt32

namespace Heap

def header (h : Heap) (p : UInt32) : HeapMem := .ofBytes (slice h.mem p.toNat 12)

def set (h : Heap) (p : UInt32) (x : HeapMem) : Heap := { h with mem := blit h.mem p.toNat x.bytes }

section
variable (h : Heap) (p : UInt32) (x : HeapMem)

@[simp] theorem set_heapPtr : (h.set p x).heapPtr = h.heapPtr := rfl

@[simp] theorem set_heapEnd : (h.set p x).heapEnd = h.heapEnd := rfl

@[simp] theorem set_lfree : (h.set p x).lfree = h.lfree := rfl

@[simp] theorem set_memSizeAligned : (h.set p x).memSizeAligned = h.memSizeAligned := rfl

@[simp] theorem set_usedMem : (h.set p x).usedMem = h.usedMem := rfl

@[simp] theorem set_maxMem : (h.set p x).maxMem = h.maxMem := rfl

end

/-- `rt_system_heap_init`, on memory that holds `mem` from the aligned address on. -/
def rtSystemHeapInit (mem : ℕ → UInt8) (beginAddr endAddr : UInt32) : Option Heap :=
  let beginAlign := rtAlign beginAddr RT_ALIGN_SIZE
  let endAlign := rtAlignDown endAddr RT_ALIGN_SIZE
  if endAlign > 2 * SIZEOF_STRUCT_MEM ∧ endAlign - 2 * SIZEOF_STRUCT_MEM ≥ beginAlign then
    let size := endAlign - beginAlign - 2 * SIZEOF_STRUCT_MEM
    let h : Heap := ⟨mem, beginAlign, size + SIZEOF_STRUCT_MEM, 0, size, 0, 0⟩
    let h := h.set 0 ⟨HEAP_MAGIC, 0, size + SIZEOF_STRUCT_MEM, 0⟩
    some (h.set h.heapEnd ⟨HEAP_MAGIC, 1, size + SIZEOF_STRUCT_MEM, size + SIZEOF_STRUCT_MEM⟩)
  else none

/-- The block `n` becomes part of the block `p` before it. -/
def absorb (h : Heap) (p n : UInt32) : Heap :=
  let h := if h.lfree = n then { h with lfree := p } else h
  let h := h.set p { h.header p with next := (h.header n).next }
  h.set (h.header n).next { h.header (h.header n).next with prev := p }

def plugHoles (h : Heap) (mem : UInt32) : Option Heap :=
  if mem < h.heapEnd ∧ (h.header mem).used = 0 then
    let nmem := (h.header mem).next
    let h := if mem ≠ nmem ∧ (h.header nmem).used = 0 ∧ nmem ≠ h.heapEnd then h.absorb mem nmem else h
    let pmem := (h.header mem).prev
    some (if pmem ≠ mem ∧ (h.header pmem).used = 0 then h.absorb pmem mem else h)
  else none

/-- More passes than any loop over the blocks makes. -/
def fuel (h : Heap) : ℕ := h.memSizeAligned.toNat + 2

/-- The loop of `rt_malloc`: the first block that is large enough. -/
def find (h : Heap) (size ptr : UInt32) : Pass UInt32 (Option UInt32) :=
  if ptr < h.memSizeAligned - size then
    let mem := h.header ptr
    if mem.used = 0 ∧ mem.next - (ptr + SIZEOF_STRUCT_MEM) ≥ size then .done (some ptr) else .next mem.next
  else .done none

/-- A new empty block at `ptr2`, between `ptr` and the block after it. -/
def split (h : Heap) (ptr ptr2 : UInt32) : Heap :=
  let h := h.set ptr2 ⟨HEAP_MAGIC, 0, (h.header ptr).next, ptr⟩
  let h := h.set ptr { h.header ptr with next := ptr2 }
  let next := (h.header ptr2).next
  if next ≠ h.memSizeAligned + SIZEOF_STRUCT_MEM then h.set next { h.header next with prev := ptr2 } else h

def addUsed (h : Heap) (n : UInt32) : Heap :=
  { h with usedMem := h.usedMem + n, maxMem := if h.maxMem < h.usedMem + n then h.usedMem + n else h.maxMem }

/-- The block `ptr` is taken, and what is left over of it becomes a block. -/
def carve (h : Heap) (size ptr : UInt32) : Heap :=
  let next := (h.header ptr).next
  if next - (ptr + SIZEOF_STRUCT_MEM) ≥ size + SIZEOF_STRUCT_MEM + MIN_SIZE_ALIGNED then
    let h := h.split ptr (ptr + SIZEOF_STRUCT_MEM + size)
    (h.set ptr { h.header ptr with used := 1, magic := HEAP_MAGIC }).addUsed (size + SIZEOF_STRUCT_MEM)
  else (h.set ptr { h.header ptr with used := 1, magic := HEAP_MAGIC }).addUsed (next - ptr)

/-- The loop of `rt_malloc` that looks for the lowest free block. -/
def nextFree (h : Heap) (lfree : UInt32) : Pass UInt32 UInt32 :=
  if (h.header lfree).used ≠ 0 ∧ lfree ≠ h.heapEnd then .next (h.header lfree).next else .done lfree

/-- The block `ptr` that was found is given to the caller. -/
def grant (h : Heap) (size ptr : UInt32) : Option (Heap × UInt32) :=
  let h := h.carve size ptr
  (if ptr = h.lfree then (loop h.nextFree h.fuel h.lfree).map fun lfree => { h with lfree := lfree }
  else some h).bind fun h =>
    if h.heapPtr + ptr + SIZEOF_STRUCT_MEM + size ≤ h.heapPtr + h.heapEnd ∧
        (h.heapPtr + ptr + SIZEOF_STRUCT_MEM) % RT_ALIGN_SIZE = 0 then
      some (h, h.heapPtr + ptr + SIZEOF_STRUCT_MEM)
    else none

def rtMalloc (h : Heap) (size : UInt32) : Option (Heap × UInt32) :=
  if size = 0 then some (h, 0)
  else
    let size := rtAlign size RT_ALIGN_SIZE
    if size > h.memSizeAligned then some (h, 0)
    else
      let size := if size < MIN_SIZE_ALIGNED then MIN_SIZE_ALIGNED else size
      (loop (h.find size) h.fuel h.lfree).bind fun r => r.elim (some (h, 0)) (h.grant size)

/-- The free block `p` may be the lowest one. -/
def lower (h : Heap) (p : UInt32) : Heap := if p < h.lfree then { h with lfree := p } else h

def rtFree (h : Heap) (rmem : UInt32) : Option Heap :=
  if rmem = 0 then some h
  else if rmem % RT_ALIGN_SIZE = 0 ∧ rmem ≥ h.heapPtr ∧ rmem < h.heapPtr + h.heapEnd then
    let mem := rmem - SIZEOF_STRUCT_MEM - h.heapPtr
    if (h.header mem).used ≠ 0 ∧ (h.header mem).magic = HEAP_MAGIC then
      let h := h.set mem { h.header mem with used := 0, magic := HEAP_MAGIC }
      let h := h.lower mem
      let h := { h with usedMem := h.usedMem - ((h.header mem).next - mem) }
      h.plugHoles mem
    else none
  else none

/-- The end of `rt_realloc`: a new block for the data, and the old one is freed. -/
def expand (h : Heap) (rmem size newsize : UInt32) : Option (Heap × UInt32) :=
  (h.rtMalloc newsize).bind fun (h, nmem) =>
    if nmem ≠ 0 then
      let src := slice h.mem (rmem - h.heapPtr).toNat (if size < newsize then size else newsize).toNat
      let h := { h with mem := blit h.mem (nmem - h.heapPtr).toNat src }
      (h.rtFree rmem).map fun h => (h, nmem)
    else some (h, 0)

def rtRealloc (h : Heap) (rmem newsize : UInt32) : Option (Heap × UInt32) :=
  let newsize := rtAlign newsize RT_ALIGN_SIZE
  if newsize > h.memSizeAligned then some (h, 0)
  else if newsize = 0 then (h.rtFree rmem).map fun h => (h, 0)
  else if rmem = 0 then h.rtMalloc newsize
  else if rmem < h.heapPtr ∨ rmem ≥ h.heapPtr + h.heapEnd then some (h, rmem)
  else
    let ptr := rmem - SIZEOF_STRUCT_MEM - h.heapPtr
    let size := (h.header ptr).next - ptr - SIZEOF_STRUCT_MEM
    if size = newsize then some (h, rmem)
    else if newsize + SIZEOF_STRUCT_MEM + MIN_SIZE < size then
      let h := { h with usedMem := h.usedMem - (size - newsize) }
      let ptr2 := ptr + SIZEOF_STRUCT_MEM + newsize
      let h := (h.split ptr ptr2).lower ptr2
      (h.plugHoles ptr2).map fun h => (h, rmem)
    else h.expand rmem size newsize

def rtCalloc (h : Heap) (count size : UInt32) : Option (Heap × UInt32) :=
  (h.rtMalloc (count * size)).map fun (h, p) =>
    if p ≠ 0 then
      ({ h with mem := blit h.mem (p - h.heapPtr).toNat (List.replicate (count * size).toNat 0) }, p)
    else (h, 0)

end Heap

end DataRecorder.Kernel
