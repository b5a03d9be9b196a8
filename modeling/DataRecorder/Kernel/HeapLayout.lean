/-
  The headers of the heap describe a list of blocks.

  `Tail m p prev bs` says that from offset `p` on the memory is cut into the blocks
  `bs`, up to the header at the end of the heap.  The three changes that `mem.c` makes
  to the headers keep this for the list that they mean:

  * `Layout.setUsed`: a block is taken or given back;
  * `Layout.split`: a block becomes two;
  * `Layout.absorb`: two blocks become one.

  None of them writes into the data of a used block (`Frame`).
-/
import DataRecorder.Base.Blocks
import DataRecorder.Kernel.Mem

namespace DataRecorder.Kernel

open Base

/-! ## Headers -/

@[simp] theorem HeapMem.bytes_length (x : HeapMem) : x.bytes.length = 12 := by simp [HeapMem.bytes]

@[simp] theorem HeapMem.ofBytes_bytes (x : HeapMem) : HeapMem.ofBytes x.bytes = x := by
  obtain ⟨magic, used, next, prev⟩ := x
  have hmagic : leNat (leBytes 2 magic.toNat) = magic.toNat := leNat_leBytes_of_lt magic.toNat_lt
  have hused : leNat (leBytes 2 used.toNat) = used.toNat := leNat_leBytes_of_lt used.toNat_lt
  have hnext : leNat (leBytes 4 next.toNat) = next.toNat := leNat_leBytes_of_lt next.toNat_lt
  have hprev : leNat (leBytes 4 prev.toNat) = prev.toNat := leNat_leBytes_of_lt prev.toNat_lt
  simp [HeapMem.ofBytes, HeapMem.bytes, List.drop_append, List.take_of_length_le,
    List.drop_of_length_le, hmagic, hused, hnext, hprev]

def hdr (m : ℕ → UInt8) (p : ℕ) : HeapMem := .ofBytes (slice m p 12)

def put (m : ℕ → UInt8) (p : ℕ) (x : HeapMem) : ℕ → UInt8 := blit m p x.bytes

variable {m m' : ℕ → UInt8} {p q prev i : ℕ} {x : HeapMem}

@[simp] theorem hdr_put : hdr (put m p x) p = x := by
  rw [hdr, put, slice_blit_eq m p x.bytes_length, HeapMem.ofBytes_bytes]

theorem hdr_congr (h : ∀ i, p ≤ i → i < p + 12 → m' i = m i) : hdr m' p = hdr m p := by
  rw [hdr, hdr, slice_congr h]

theorem put_apart (h : i < p ∨ p + 12 ≤ i) : put m p x i = m i :=
  blit_outside m (by rwa [x.bytes_length])

theorem hdr_put_apart (h : q + 12 ≤ p ∨ p + 12 ≤ q) : hdr (put m p x) q = hdr m q :=
  hdr_congr fun i _ _ => put_apart (by omega)

/-! ## Blocks in memory -/

/-- At `p` is the header of the block `b`, with the block before it at `prev`. -/
structure IsBlock (m : ℕ → UInt8) (p prev : ℕ) (b : Block) : Prop where
  magic : (hdr m p).magic = HEAP_MAGIC
  used : (hdr m p).used = if b.used then 1 else 0
  next : (hdr m p).next.toNat = p + b.len
  prev : (hdr m p).prev.toNat = prev

def Seg (m : ℕ → UInt8) : ℕ → ℕ → List Block → Prop
  | _, _, [] => True
  | p, prev, b :: bs => IsBlock m p prev b ∧ Seg m (p + b.len) p bs

/-- The blocks up to the end of the heap, whose header is used and its own next one. -/
def Tail (m : ℕ → UInt8) : ℕ → ℕ → List Block → Prop
  | p, _, [] => (hdr m p).used = 1 ∧ (hdr m p).next.toNat = p
  | p, prev, b :: bs => IsBlock m p prev b ∧ Tail m (p + b.len) p bs

/-- There is room for a header in each block, and for four bytes of data. -/
def Roomy (bs : List Block) : Prop := ∀ b ∈ bs, 16 ≤ b.len ∧ b.len % 4 = 0

variable {b : Block} {xs ys bs : List Block}

theorem tail_append : Tail m p prev (xs ++ ys) ↔
    Seg m p prev xs ∧ Tail m (p + extent xs) (lastStart prev p xs) ys := by
  induction xs generalizing p prev with
  | nil => simp [Seg, extent, lastStart]
  | cons b xs ih => simp [Seg, Tail, extent, lastStart, ih, Nat.add_assoc, and_assoc]

theorem IsBlock.congr (h : IsBlock m p prev b) (hm : hdr m' p = hdr m p) : IsBlock m' p prev b := by
  obtain ⟨h₁, h₂, h₃, h₄⟩ := h
  exact ⟨hm ▸ h₁, hm ▸ h₂, hm ▸ h₃, hm ▸ h₄⟩

/-- A header is written behind the blocks. -/
theorem Seg.put_behind (h : Seg m p prev bs) (hbs : Roomy bs) (hq : p + extent bs ≤ q) :
    Seg (put m q x) p prev bs := by
  induction bs generalizing p prev with
  | nil => trivial
  | cons b bs ih =>
    have hlen := (hbs b List.mem_cons_self).1
    rw [extent] at hq
    exact ⟨h.1.congr (hdr_put_apart (by omega)),
      ih h.2 (fun c hc => hbs c (List.mem_cons_of_mem b hc)) (by omega)⟩

/-- A header is written before the blocks. -/
theorem Tail.put_before (h : Tail m p prev bs) (hq : q + 12 ≤ p) : Tail (put m q x) p prev bs := by
  induction bs generalizing p prev with
  | nil =>
    rw [Tail, hdr_put_apart (Or.inr hq)]
    exact h
  | cons b bs ih => exact ⟨h.1.congr (hdr_put_apart (Or.inr hq)), ih h.2 (by omega)⟩

/-- The block before changes. -/
theorem Tail.retie {v : UInt32} (h : Tail m p prev bs) (hbs : Roomy bs) :
    Tail (put m p { hdr m p with prev := v }) p v.toNat bs := by
  cases bs with
  | nil =>
    rw [Tail, hdr_put]
    exact h
  | cons b bs =>
    have hlen := (hbs b List.mem_cons_self).1
    refine ⟨⟨?_, ?_, ?_, ?_⟩, h.2.put_before (by omega)⟩
    · rw [hdr_put]; exact h.1.magic
    · rw [hdr_put]; exact h.1.used
    · rw [hdr_put]; exact h.1.next
    · rw [hdr_put]

/-! ## Data -/

/-- The data of the used blocks are as before. -/
def Frame (m m' : ℕ → UInt8) (bs : List Block) : Prop :=
  ∀ a n, (a, n) ∈ spots 0 bs → ∀ i, 12 ≤ i → i < n → m' (a + i) = m (a + i)

theorem Frame.refl (m : ℕ → UInt8) (bs : List Block) : Frame m m bs := fun _ _ _ _ _ _ => rfl

theorem Frame.trans {m'' : ℕ → UInt8} (h : Frame m m' bs) (h' : Frame m' m'' bs) : Frame m m'' bs :=
  fun a n ha i hi hin => (h' a n ha i hi hin).trans (h a n ha i hi hin)

/-- A header is written where a block begins, or at the end. -/
theorem frame_put (hbs : bs = xs ++ ys) (hq : q = extent xs) : Frame m (put m q x) bs := by
  intro a n ha i hi hin
  rw [hbs] at ha
  have hapart := spots_apart ha
  exact put_apart (by omega)

/-! ## The heap -/

/-- The heap is cut into the blocks `bs`. -/
structure Layout (h : Heap) (bs : List Block) : Prop where
  size : h.memSizeAligned.toNat + 12 = extent bs
  stop : h.heapEnd.toNat = extent bs
  space : h.heapPtr.toNat + extent bs + 12 < 4294967296
  aligned : h.heapPtr.toNat % 4 = 0
  roomy : Roomy bs
  tail : Tail h.mem 0 0 bs

variable {h h' : Heap} {ptr ptr2 : UInt32} {u : Bool}

theorem mem_set : (h.set ptr x).mem = put h.mem ptr.toNat x := rfl

theorem header_eq : h.header ptr = hdr h.mem ptr.toNat := rfl

theorem Roomy.of_append (h : Roomy (xs ++ ys)) : Roomy xs ∧ Roomy ys :=
  ⟨fun b hb => h b (List.mem_append_left ys hb), fun b hb => h b (List.mem_append_right xs hb)⟩

theorem Roomy.replace {zs : List Block} (h : Roomy (xs ++ b :: ys)) (hz : Roomy zs) : Roomy (xs ++ zs ++ ys) := by
  obtain ⟨hxs, hys⟩ := h.of_append
  intro c hc
  rw [List.append_assoc, List.mem_append, List.mem_append] at hc
  rcases hc with hc | hc | hc
  · exact hxs c hc
  · exact hz c hc
  · exact hys c (List.mem_cons_of_mem b hc)

theorem Layout.block (hl : Layout h (xs ++ b :: ys)) (hp : ptr.toNat = extent xs) :
    IsBlock h.mem ptr.toNat (lastStart 0 0 xs) b := by
  have hb := (tail_append.1 hl.tail).2.1
  rwa [Nat.zero_add, ← hp] at hb

/-- A block of the heap is taken or given back. -/
theorem Layout.setUsed (hl : Layout h (xs ++ b :: ys)) (hp : ptr.toNat = extent xs) {v : UInt16}
    (hv : v = if u then 1 else 0) :
    Layout (h.set ptr { h.header ptr with used := v, magic := HEAP_MAGIC }) (xs ++ ⟨b.len, u⟩ :: ys) ∧
      Frame h.mem (h.set ptr { h.header ptr with used := v, magic := HEAP_MAGIC }).mem (xs ++ ⟨b.len, u⟩ :: ys) := by
  have hext : extent (xs ++ ⟨b.len, u⟩ :: ys) = extent (xs ++ b :: ys) := by simp [extent]
  obtain ⟨hsize, hstop, hspace, haligned, hroomy, htail⟩ := hl
  obtain ⟨hxs, hb, hys⟩ := tail_append.1 htail
  obtain ⟨hroomyx, hroomyb⟩ := hroomy.of_append
  have hlen := (hroomyb b List.mem_cons_self).1
  rw [Nat.zero_add, ← hp] at hb hys
  refine ⟨⟨hext ▸ hsize, hext ▸ hstop, hext ▸ hspace, haligned, ?_, ?_⟩, frame_put rfl hp⟩
  · have hone : Roomy [⟨b.len, u⟩] := by
      intro c hc
      rw [List.mem_singleton.1 hc]
      exact hroomyb b List.mem_cons_self
    simpa using hroomy.replace hone
  · refine tail_append.2 ⟨hxs.put_behind hroomyx (by omega), ?_⟩
    rw [Nat.zero_add, ← hp]
    rw [mem_set]
    refine ⟨⟨?_, ?_, ?_, ?_⟩, hys.put_before (by omega)⟩
    · rw [hdr_put]
    · rw [hdr_put]; exact hv
    · rw [hdr_put]; exact hb.next
    · rw [hdr_put]; exact hb.prev

theorem extent_pos (hb : Roomy bs) (hne : bs ≠ []) : 0 < extent bs := by
  cases bs with
  | nil => exact absurd rfl hne
  | cons b bs =>
    have := (hb b List.mem_cons_self).1
    rw [extent]
    omega

/-- The block behind is told what is before it, unless it is the end of the heap. -/
theorem Tail.retie_or {n v : UInt32} {c : Prop} [Decidable c] (ht : Tail h.mem n.toNat prev ys) (hys : Roomy ys)
    (hc : ¬ c → ys = []) :
    Tail (if c then h.set n { h.header n with prev := v } else h).mem n.toNat v.toNat ys := by
  split_ifs with hn
  · exact ht.retie hys
  · rw [hc hn] at ht ⊢
    exact ht

theorem hdr_retie {n : UInt32} {c : Prop} [Decidable c] (hq : q + 12 ≤ n.toNat) :
    hdr (if c then h.set n x else h).mem q = hdr h.mem q := by
  split_ifs
  · exact hdr_put_apart (Or.inl hq)
  · rfl

/-- A block becomes two, the second of them free. -/
theorem Layout.split (hl : Layout h (xs ++ b :: ys)) (hp : ptr.toNat = extent xs) {k : ℕ}
    (hp2 : ptr2.toNat = extent xs + k) (hk : 16 ≤ k) (hk4 : k % 4 = 0) (hb : k + 16 ≤ b.len) :
    Layout (h.split ptr ptr2) (xs ++ ⟨k, b.used⟩ :: ⟨b.len - k, false⟩ :: ys) ∧
      Frame h.mem (h.split ptr ptr2).mem (xs ++ ⟨k, b.used⟩ :: ⟨b.len - k, false⟩ :: ys) := by
  have hblock := hl.block hp
  obtain ⟨hsize, hstop, hspace, haligned, hroomy, htail⟩ := hl
  obtain ⟨hxs, -, hys⟩ := tail_append.1 htail
  obtain ⟨hroomyx, hroomyb⟩ := hroomy.of_append
  have hroomyy : Roomy ys := fun c hc => hroomyb c (List.mem_cons_of_mem b hc)
  have hlen := hroomyb b List.mem_cons_self
  have hext : extent (xs ++ ⟨k, b.used⟩ :: ⟨b.len - k, false⟩ :: ys) = extent (xs ++ b :: ys) := by
    simp only [extent_append, extent]
    omega
  have hext' : extent (xs ++ b :: ys) = extent xs + b.len + extent ys := by
    simp only [extent_append, extent]
    omega
  -- the two headers that are written first
  generalize hn : (h.header ptr).next = n
  have hnext : n.toNat = extent xs + b.len := by rw [← hn, ← hp]; exact hblock.next
  rw [Nat.zero_add, ← hnext] at hys
  let x₁ : HeapMem := ⟨HEAP_MAGIC, 0, n, ptr⟩
  let h₁ := h.set ptr2 x₁
  let h₂ := h₁.set ptr { h₁.header ptr with next := ptr2 }
  have hhdr : hdr h₁.mem ptr.toNat = hdr h.mem ptr.toNat := hdr_put_apart (by omega)
  have hhdr₁ : hdr h₂.mem ptr.toNat = { hdr h.mem ptr.toNat with next := ptr2 } := by
    rw [← hhdr]
    exact hdr_put
  have hhdr₂ : hdr h₂.mem ptr2.toNat = x₁ := (hdr_put_apart (by omega)).trans hdr_put
  have hsplit : h.split ptr ptr2 =
      if n ≠ h.memSizeAligned + SIZEOF_STRUCT_MEM then h₂.set n { h₂.header n with prev := ptr2 } else h₂ := by
    have hx : (h₂.header ptr2).next = n := congrArg HeapMem.next hhdr₂
    unfold Heap.split
    rw [hn]
    show (if (h₂.header ptr2).next ≠ _ then _ else _) = _
    rw [hx]
    rfl
  have hend : ¬ n ≠ h.memSizeAligned + SIZEOF_STRUCT_MEM → ys = [] := by
    intro he
    have he' := congrArg UInt32.toNat (not_not.1 he)
    have hsum : (h.memSizeAligned + SIZEOF_STRUCT_MEM).toNat = h.memSizeAligned.toNat + 12 := by
      rw [UInt32.toNat_add]
      exact Nat.mod_eq_of_lt (by show h.memSizeAligned.toNat + 12 < _; omega)
    by_contra hne
    have := extent_pos hroomyy hne
    omega
  have hys₂ : Tail h₂.mem n.toNat (extent xs) ys := (hys.put_before (by omega)).put_before (by omega)
  have hxs₂ : Seg h₂.mem 0 0 xs := (hxs.put_behind hroomyx (by omega)).put_behind hroomyx (by omega)
  have hframe {y : HeapMem} {m : ℕ → UInt8} {a : ℕ} (ha : a = extent xs ∨ a = extent xs + k ∨ a = n.toNat) :
      Frame m (put m a y) (xs ++ ⟨k, b.used⟩ :: ⟨b.len - k, false⟩ :: ys) := by
    rcases ha with rfl | rfl | rfl
    · exact frame_put rfl rfl
    · exact frame_put (List.append_cons ..) (by simp [extent])
    · have hcut : xs ++ ⟨k, b.used⟩ :: ⟨b.len - k, false⟩ :: ys =
          (xs ++ [⟨k, b.used⟩, ⟨b.len - k, false⟩]) ++ ys := by simp
      refine frame_put hcut ?_
      simp only [extent_append, extent]
      omega
  have hkeep {c : Prop} [Decidable c] {y : HeapMem} : (if c then h₂.set n y else h₂).memSizeAligned = h.memSizeAligned ∧
      (if c then h₂.set n y else h₂).heapEnd = h.heapEnd ∧ (if c then h₂.set n y else h₂).heapPtr = h.heapPtr := by
    split_ifs <;> exact ⟨rfl, rfl, rfl⟩
  rw [hsplit]
  refine ⟨⟨?_, ?_, ?_, ?_, ?_, tail_append.2 ⟨?_, ?_, ?_, ?_⟩⟩, ?_⟩
  · rw [hkeep.1, hext]; exact hsize
  · rw [hkeep.2.1, hext]; exact hstop
  · rw [hkeep.2.2, hext]; exact hspace
  · rw [hkeep.2.2]; exact haligned
  · have htwo : Roomy [⟨k, b.used⟩, ⟨b.len - k, false⟩] := by
      rintro c hc
      simp only [List.mem_cons, List.not_mem_nil, or_false] at hc
      rcases hc with rfl | rfl
      · exact ⟨hk, hk4⟩
      · exact ⟨by show 16 ≤ b.len - k; omega, by show (b.len - k) % 4 = 0; omega⟩
    simpa using hroomy.replace htwo
  · split_ifs
    · exact hxs₂.put_behind hroomyx (by omega)
    · exact hxs₂
  · rw [Nat.zero_add, ← hp]
    refine ⟨?_, ?_, ?_, ?_⟩ <;> rw [hdr_retie (by omega), hhdr₁]
    · exact hblock.magic
    · exact hblock.used
    · rw [hp]; exact hp2
    · exact hblock.prev
  · rw [Nat.zero_add, ← hp2]
    refine ⟨?_, ?_, ?_, ?_⟩ <;> rw [hdr_retie (by omega), hhdr₂]
    · rfl
    · show n.toNat = ptr2.toNat + (b.len - k)
      omega
    · exact hp
  · have hstart : 0 + extent xs + k + (b.len - k) = n.toNat := by omega
    show Tail _ (0 + extent xs + k + (b.len - k)) (0 + extent xs + k) ys
    rw [hstart, Nat.zero_add, ← hp2]
    exact hys₂.retie_or hroomyy hend
  · have hframe₂ : Frame h.mem h₂.mem _ := (hframe (Or.inr (Or.inl hp2))).trans (hframe (Or.inl hp))
    split_ifs
    · exact hframe₂.trans (hframe (Or.inr (Or.inr rfl)))
    · exact hframe₂

theorem absorb_fields (h : Heap) (ptr ptr2 : UInt32) : (h.absorb ptr ptr2).memSizeAligned = h.memSizeAligned ∧
    (h.absorb ptr ptr2).heapEnd = h.heapEnd ∧ (h.absorb ptr ptr2).heapPtr = h.heapPtr ∧
    (h.absorb ptr ptr2).usedMem = h.usedMem ∧ (h.absorb ptr ptr2).maxMem = h.maxMem := by
  unfold Heap.absorb
  split_ifs <;> simp

/-- Two blocks become one. -/
theorem Layout.absorb {a : Block} (hl : Layout h (xs ++ a :: b :: ys)) (hp : ptr.toNat = extent xs)
    (hp2 : ptr2.toNat = extent xs + a.len) :
    Layout (h.absorb ptr ptr2) (xs ++ ⟨a.len + b.len, a.used⟩ :: ys) ∧
      Frame h.mem (h.absorb ptr ptr2).mem (xs ++ ⟨a.len + b.len, a.used⟩ :: ys) := by
  obtain ⟨hsize, hstop, hspace, haligned, hroomy, htail⟩ := hl
  obtain ⟨hxs, ha, hb, hys⟩ := tail_append.1 htail
  obtain ⟨hroomyx, hroomyb⟩ := hroomy.of_append
  have hroomyy : Roomy ys := fun c hc => hroomyb c (List.mem_cons_of_mem a (List.mem_cons_of_mem b hc))
  have hlena := hroomyb a List.mem_cons_self
  have hlenb := hroomyb b (List.mem_cons_of_mem a List.mem_cons_self)
  have hext : extent (xs ++ ⟨a.len + b.len, a.used⟩ :: ys) = extent (xs ++ a :: b :: ys) := by
    simp only [extent_append, extent]
    omega
  rw [Nat.zero_add] at ha hb hys
  rw [← hp] at ha
  rw [← hp2] at hb hys
  -- the header that is given up still leads on
  generalize hn : (h.header ptr2).next = n
  have hnext : n.toNat = ptr2.toNat + b.len := by rw [← hn]; exact hb.next
  rw [← hnext] at hys
  let h₁ := h.set ptr { h.header ptr with next := n }
  have hhdr₁ : hdr h₁.mem ptr.toNat = { hdr h.mem ptr.toNat with next := n } := hdr_put
  have hhdr₂ : hdr h₁.mem ptr2.toNat = hdr h.mem ptr2.toNat := hdr_put_apart (by omega)
  have hmem : (h.absorb ptr ptr2).mem = (h₁.set n { h₁.header n with prev := ptr }).mem := by
    have hx : (h₁.header ptr2).next = n := (congrArg HeapMem.next hhdr₂).trans hn
    have hmem₁ : (h.absorb ptr ptr2).mem =
        (h₁.set (h₁.header ptr2).next { h₁.header (h₁.header ptr2).next with prev := ptr }).mem := by
      unfold Heap.absorb
      rw [show h₁ = h.set ptr { h.header ptr with next := (h.header ptr2).next } by rw [hn]]
      split_ifs <;> rfl
    rw [hmem₁, hx]
  have hkeep := absorb_fields h ptr ptr2
  refine ⟨⟨?_, ?_, ?_, ?_, ?_, tail_append.2 ⟨?_, ?_, ?_⟩⟩, ?_⟩
  · rw [hkeep.1, hext]; exact hsize
  · rw [hkeep.2.1, hext]; exact hstop
  · rw [hkeep.2.2.1, hext]; exact hspace
  · rw [hkeep.2.2.1]; exact haligned
  · have hone : Roomy [⟨a.len + b.len, a.used⟩] := by
      intro c hc
      rw [List.mem_singleton.1 hc]
      exact ⟨by show 16 ≤ a.len + b.len; omega, by show (a.len + b.len) % 4 = 0; omega⟩
    have hroomy' : Roomy ((xs ++ [a]) ++ b :: ys) := by simpa using hroomy
    obtain ⟨hroomyxa, -⟩ := hroomy'.of_append
    intro c hc
    rcases List.mem_append.1 hc with hc | hc
    · exact hroomyx c hc
    · rcases List.mem_cons.1 hc with rfl | hc
      · exact hone _ (List.mem_singleton_self _)
      · exact hroomyy c hc
  · rw [hmem]
    exact (hxs.put_behind hroomyx (by omega)).put_behind hroomyx (by omega)
  · rw [Nat.zero_add, ← hp, hmem]
    refine ⟨?_, ?_, ?_, ?_⟩ <;> rw [mem_set, hdr_put_apart (by omega), hhdr₁]
    · exact ha.magic
    · exact ha.used
    · show n.toNat = ptr.toNat + (a.len + b.len)
      omega
    · exact ha.prev
  · have hstart : 0 + extent xs + (a.len + b.len) = n.toNat := by omega
    show Tail _ (0 + extent xs + (a.len + b.len)) (0 + extent xs) ys
    rw [hstart, Nat.zero_add, ← hp, hmem]
    exact (hys.put_before (by omega)).retie hroomyy
  · rw [hmem]
    have hcut : xs ++ ⟨a.len + b.len, a.used⟩ :: ys = (xs ++ [⟨a.len + b.len, a.used⟩]) ++ ys := by simp
    refine (frame_put rfl hp).trans (frame_put hcut ?_)
    simp only [extent_append, extent]
    omega

end DataRecorder.Kernel
