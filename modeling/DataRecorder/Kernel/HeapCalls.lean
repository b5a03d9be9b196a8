/-
  The calls of the heap, on the list of its blocks.

  `Heap.Inv h bs` is the state between calls: no two free blocks meet, `lfree` is the
  first free one and `used_mem` counts the used ones.

  * `plugHoles_spec`: a free block grows into its free neighbours;
  * `rtMalloc_spec`, `rtFree_spec`, `rtRealloc_spec`: each call ends, none of its
    assertions fails, and the used blocks are as they should be.
-/
import DataRecorder.Kernel.HeapLayout

namespace DataRecorder.Kernel

open Base

structure Heap.Inv (h : Heap) (bs : List Block) : Prop where
  layout : Layout h bs
  coalesced : Coalesced bs
  lfree : h.lfree.toNat = firstFree 0 bs
  used : h.usedMem.toNat = usedLen bs
  max : h.usedMem.toNat ≤ h.maxMem.toNat

/-- The heap is where it was. -/
structure Placed (h h' : Heap) : Prop where
  heapPtr : h'.heapPtr = h.heapPtr
  memSizeAligned : h'.memSizeAligned = h.memSizeAligned

theorem Placed.trans {h h' h'' : Heap} (hp : Placed h h') (hp' : Placed h' h'') : Placed h h'' :=
  ⟨hp'.heapPtr.trans hp.heapPtr, hp'.memSizeAligned.trans hp.memSizeAligned⟩

/-- The used blocks are as before. -/
structure Merged (h : Heap) (bs : List Block) (h' : Heap) (bs' : List Block) : Prop where
  layout : Layout h' bs'
  placed : Placed h h'
  frame : Frame h.mem h'.mem bs'
  lfree : h'.lfree.toNat = firstFree 0 bs'
  usedMem : h'.usedMem = h.usedMem
  maxMem : h'.maxMem = h.maxMem
  spots : spots 0 bs' = spots 0 bs
  usedLen : usedLen bs' = usedLen bs

variable {h h' : Heap} {bs bs' xs ys : List Block} {b : Block} {ptr ptr2 : UInt32}

theorem Frame.congr {m m' : ℕ → UInt8} (hf : Frame m m' bs) (hs : spots 0 bs' = spots 0 bs) : Frame m m' bs' := by
  intro a n ha
  rw [hs] at ha
  exact hf a n ha

theorem Merged.refl (hl : Layout h bs) (hf : h.lfree.toNat = firstFree 0 bs) : Merged h bs h bs :=
  ⟨hl, ⟨rfl, rfl⟩, Frame.refl _ _, hf, rfl, rfl, rfl, rfl⟩

theorem Merged.trans {h'' : Heap} {bs'' : List Block} (hm : Merged h bs h' bs') (hm' : Merged h' bs' h'' bs'') :
    Merged h bs h'' bs'' :=
  ⟨hm'.layout, hm.placed.trans hm'.placed, (hm.frame.congr hm'.spots).trans hm'.frame, hm'.lfree,
    hm'.usedMem.trans hm.usedMem, hm'.maxMem.trans hm.maxMem, hm'.spots.trans hm.spots, hm'.usedLen.trans hm.usedLen⟩

/-! ## Coalescing -/

theorem merged_absorb {a n : ℕ} (hl : Layout h (xs ++ ⟨a, false⟩ :: ⟨n, false⟩ :: ys)) (hp : ptr.toNat = extent xs)
    (hp2 : ptr2.toNat = extent xs + a) (hf : h.lfree.toNat = firstFree 0 (xs ++ ⟨a, false⟩ :: ⟨n, false⟩ :: ys)) :
    Merged h (xs ++ ⟨a, false⟩ :: ⟨n, false⟩ :: ys) (h.absorb ptr ptr2) (xs ++ ⟨a + n, false⟩ :: ys) := by
  obtain ⟨hl', hframe⟩ := hl.absorb hp hp2
  have ha := (hl.roomy ⟨a, false⟩ (by simp)).1
  have hfirst : h.lfree.toNat ≤ extent xs := by
    rw [hf, firstFree_free rfl]
    split_ifs
    · omega
    · exact firstFree_le.trans (by omega)
  have hne : h.lfree ≠ ptr2 := by
    rintro rfl
    have : 16 ≤ a := ha
    omega
  obtain ⟨hsize, -, hptr, husedMem, hmaxMem⟩ := absorb_fields h ptr ptr2
  refine ⟨hl', ⟨hptr, hsize⟩, hframe, ?_, husedMem, hmaxMem, ?_, ?_⟩
  · have hlf : (h.absorb ptr ptr2).lfree = h.lfree := by
      unfold Heap.absorb
      rw [if_neg hne]
      simp
    rw [hlf, hf, firstFree_free rfl, firstFree_free rfl]
  · simp [spots_append, spots, Nat.add_assoc]
  · simp [usedLen]

/-- The block behind is taken in if it is free. -/
theorem merged_forward {n : ℕ} (hl : Layout h (xs ++ ⟨n, false⟩ :: ys)) (hp : ptr.toNat = extent xs)
    (hf : h.lfree.toNat = firstFree 0 (xs ++ ⟨n, false⟩ :: ys)) (hys : Coalesced ys) {c : Prop} [Decidable c]
    (hc : c ↔ ptr ≠ (h.header ptr).next ∧ (h.header (h.header ptr).next).used = 0 ∧
      (h.header ptr).next ≠ h.heapEnd) :
    ∃ n' ys', Merged h (xs ++ ⟨n, false⟩ :: ys) (if c then h.absorb ptr (h.header ptr).next else h)
      (xs ++ ⟨n', false⟩ :: ys') ∧ Coalesced (⟨n', false⟩ :: ys') := by
  have hnext : (h.header ptr).next.toNat = extent xs + n := by
    rw [← hp]
    exact (hl.block hp).next
  have hlen := (hl.roomy ⟨n, false⟩ (by simp)).1
  cases ys with
  | nil =>
    have hstop := hl.stop
    have hend : (h.header ptr).next = h.heapEnd := by
      apply UInt32.toNat_inj.1
      rw [hnext, hstop]
      simp [extent]
    rw [if_neg (fun h => (hc.1 h).2.2 hend)]
    exact ⟨n, [], .refl hl hf, List.isChain_singleton _⟩
  | cons d ys =>
    have hcut : xs ++ ⟨n, false⟩ :: d :: ys = (xs ++ [⟨n, false⟩]) ++ d :: ys := by simp
    have hd : IsBlock h.mem (h.header ptr).next.toNat _ d := (hcut ▸ hl).block (by simp [extent, hnext])
    by_cases hu : d.used = true
    · have hused : (h.header (h.header ptr).next).used ≠ 0 := by
        rw [header_eq, hd.used, if_pos hu]
        decide
      rw [if_neg (fun h => hused (hc.1 h).2.1)]
      exact ⟨n, d :: ys, .refl hl hf, List.isChain_cons_cons.2 ⟨Or.inr hu, hys⟩⟩
    · obtain ⟨m, u⟩ := d
      obtain rfl : u = false := by simpa using hu
      have hfree : (h.header (h.header ptr).next).used = 0 := hd.used
      have hne : ptr ≠ (h.header ptr).next := by
        intro he
        have := congrArg UInt32.toNat he
        have : 16 ≤ n := hlen
        omega
      have hend : (h.header ptr).next ≠ h.heapEnd := by
        intro he
        have := congrArg UInt32.toNat he
        have hm := (hl.roomy ⟨m, false⟩ (by simp)).1
        rw [hnext, hl.stop] at this
        simp only [extent_append, extent] at this hm
        omega
      obtain ⟨hhead, hys⟩ := List.isChain_cons.1 hys
      rw [if_pos (hc.2 ⟨hne, hfree, hend⟩)]
      refine ⟨n + m, ys, merged_absorb hl hp hnext hf, List.isChain_cons.2 ⟨fun e he => ?_, hys⟩⟩
      exact Or.inr ((hhead e he).resolve_left (by simp))

/-- A free block becomes part of the free block before it. -/
theorem merged_backward {n : ℕ} (hl : Layout h (xs ++ ⟨n, false⟩ :: ys)) (hp : ptr.toNat = extent xs)
    (hf : h.lfree.toNat = firstFree 0 (xs ++ ⟨n, false⟩ :: ys)) (hxs : Coalesced xs)
    (hys : Coalesced (⟨n, false⟩ :: ys)) {c : Prop} [Decidable c]
    (hc : c ↔ (h.header ptr).prev ≠ ptr ∧ (h.header (h.header ptr).prev).used = 0) :
    ∃ bs', Merged h (xs ++ ⟨n, false⟩ :: ys) (if c then h.absorb (h.header ptr).prev ptr else h) bs' ∧
      Coalesced bs' := by
  have hprev : (h.header ptr).prev.toNat = lastStart 0 0 xs := (hl.block hp).prev
  obtain ⟨hhead, hys'⟩ := List.isChain_cons.1 hys
  rcases List.eq_nil_or_concat xs with rfl | ⟨zs, ⟨m, u⟩, rfl⟩
  · have heq : (h.header ptr).prev = ptr := UInt32.toNat_inj.1 (hprev.trans hp.symm)
    rw [if_neg (fun h => (hc.1 h).1 heq)]
    exact ⟨_, .refl hl hf, hys⟩
  · rw [List.concat_eq_append] at *
    rw [lastStart_concat, Nat.zero_add] at hprev
    have hcut : (zs ++ [⟨m, u⟩]) ++ ⟨n, false⟩ :: ys = zs ++ ⟨m, u⟩ :: ⟨n, false⟩ :: ys := by simp
    rw [hcut] at hl hf ⊢
    have ha : IsBlock h.mem (h.header ptr).prev.toNat _ ⟨m, u⟩ := hl.block hprev
    have hm : 16 ≤ m := (hl.roomy ⟨m, u⟩ (by simp)).1
    cases u with
    | true =>
      have hused : (h.header (h.header ptr).prev).used ≠ 0 := by
        rw [header_eq, ha.used]
        simp
      rw [if_neg (fun h => hused (hc.1 h).2)]
      refine ⟨_, .refl hl hf, ?_⟩
      rw [← hcut]
      refine List.isChain_append.2 ⟨hxs, hys, fun a ha c _ => Or.inl ?_⟩
      obtain rfl : ⟨m, true⟩ = a := by simpa using ha
      rfl
    | false =>
      have hne : (h.header ptr).prev ≠ ptr := by
        intro he
        have := congrArg UInt32.toNat he
        simp only [extent_append, extent] at hp
        omega
      rw [if_pos (hc.2 ⟨hne, ha.used⟩)]
      refine ⟨_, merged_absorb hl hprev (by simpa [extent] using hp) hf, ?_⟩
      obtain ⟨hzs, -, hlast⟩ := List.isChain_append.1 hxs
      refine coalesced_iff.2 ⟨hzs, hys', fun a ha => ?_, fun c hc' => ?_⟩
      · exact Or.inl ((hlast a ha ⟨m, false⟩ rfl).resolve_right (by simp))
      · exact Or.inr ((hhead c hc').resolve_left (by simp))

/-- **A free block grows into its free neighbours.** -/
theorem plugHoles_spec {n : ℕ} (hl : Layout h (xs ++ ⟨n, false⟩ :: ys)) (hp : ptr.toNat = extent xs)
    (hf : h.lfree.toNat = firstFree 0 (xs ++ ⟨n, false⟩ :: ys)) (hxs : Coalesced xs) (hys : Coalesced ys) :
    ∃ h' bs', h.plugHoles ptr = some h' ∧ Merged h (xs ++ ⟨n, false⟩ :: ys) h' bs' ∧ Coalesced bs' := by
  have hlen : 16 ≤ n := (hl.roomy ⟨n, false⟩ (by simp)).1
  have hbefore : ptr < h.heapEnd := by
    rw [UInt32.lt_iff_toNat_lt, hp, hl.stop]
    simp only [extent_append, extent]
    omega
  have hfree : (h.header ptr).used = 0 := (hl.block hp).used
  obtain ⟨n', ys', hm, hys'⟩ := merged_forward hl hp hf hys Iff.rfl
  obtain ⟨bs', hm', hbs'⟩ := merged_backward hm.layout hp hm.lfree hxs hys' Iff.rfl
  refine ⟨_, bs', ?_, hm.trans hm', hbs'⟩
  unfold Heap.plugHoles
  rw [if_pos ⟨hbefore, hfree⟩]

/-! ## `rt_free` -/

theorem Roomy.extent_mod (hb : Roomy bs) : extent bs % 4 = 0 := by
  induction bs with
  | nil => rfl
  | cons b bs ih =>
    have hb4 := (hb b List.mem_cons_self).2
    have hbs := ih fun c hc => hb c (List.mem_cons_of_mem b hc)
    rw [extent]
    omega

/-- The address that callers have of the block behind `xs`. -/
theorem Layout.address {rmem : UInt32} (hl : Layout h (xs ++ b :: ys))
    (hr : rmem.toNat = h.heapPtr.toNat + extent xs + 12) :
    rmem ≠ 0 ∧ rmem % RT_ALIGN_SIZE = 0 ∧ rmem ≥ h.heapPtr ∧ rmem < h.heapPtr + h.heapEnd ∧
      (rmem - SIZEOF_STRUCT_MEM - h.heapPtr).toNat = extent xs := by
  obtain ⟨hxs, hys⟩ := hl.roomy.of_append
  have hlen := (hys b List.mem_cons_self).1
  have hstop := hl.stop
  have hspace := hl.space
  have haligned := hl.aligned
  have hmod := hxs.extent_mod
  simp only [extent_append, extent] at hstop hspace
  have hend : (h.heapPtr + h.heapEnd).toNat = h.heapPtr.toNat + h.heapEnd.toNat := by
    rw [UInt32.toNat_add]
    exact Nat.mod_eq_of_lt (by omega)
  have hsub : (rmem - SIZEOF_STRUCT_MEM).toNat = rmem.toNat - 12 :=
    UInt32.toNat_sub_of_le _ _ (by rw [UInt32.le_iff_toNat_le, hr]; exact Nat.le_add_left ..)
  refine ⟨?_, ?_, ?_, ?_, ?_⟩
  · rintro rfl
    rw [UInt32.toNat_zero] at hr
    omega
  · apply UInt32.toNat_inj.1
    rw [UInt32.toNat_mod]
    show rmem.toNat % 4 = 0
    omega
  · rw [ge_iff_le, UInt32.le_iff_toNat_le]
    omega
  · rw [UInt32.lt_iff_toNat_lt, hend]
    omega
  · rw [UInt32.toNat_sub_of_le _ _ (by rw [UInt32.le_iff_toNat_le]; omega), hsub]
    omega

theorem lower_fields (h : Heap) (ptr : UInt32) : (h.lower ptr).mem = h.mem ∧ (h.lower ptr).heapPtr = h.heapPtr ∧
    (h.lower ptr).heapEnd = h.heapEnd ∧ (h.lower ptr).memSizeAligned = h.memSizeAligned ∧
    (h.lower ptr).usedMem = h.usedMem ∧ (h.lower ptr).maxMem = h.maxMem ∧
    (h.lower ptr).lfree.toNat = if ptr.toNat < h.lfree.toNat then ptr.toNat else h.lfree.toNat := by
  unfold Heap.lower
  simp only [UInt32.lt_iff_toNat_lt]
  split_ifs <;> simp

theorem Layout.same (hl : Layout h bs) (hmem : h'.mem = h.mem) (hptr : h'.heapPtr = h.heapPtr)
    (hend : h'.heapEnd = h.heapEnd) (hsize : h'.memSizeAligned = h.memSizeAligned) : Layout h' bs :=
  ⟨hsize ▸ hl.size, hend ▸ hl.stop, hptr ▸ hl.space, hptr ▸ hl.aligned, hl.roomy, hmem ▸ hl.tail⟩

/-- A block that became free is merged with its neighbours, and the calls are done. -/
theorem release_spec {n : ℕ} (hl : Layout h (xs ++ ⟨n, false⟩ :: ys)) (hp : ptr.toNat = extent xs)
    (hf : (if extent xs < h.lfree.toNat then extent xs else h.lfree.toNat) = firstFree 0 (xs ++ ⟨n, false⟩ :: ys))
    (hxs : Coalesced xs) (hys : Coalesced ys) (hu : h.usedMem.toNat = usedLen (xs ++ ⟨n, false⟩ :: ys))
    (hm : h.usedMem.toNat ≤ h.maxMem.toNat) :
    ∃ h' bs', (h.lower ptr).plugHoles ptr = some h' ∧ h'.Inv bs' ∧ Placed h h' ∧ Frame h.mem h'.mem bs' ∧
      spots 0 bs' = spots 0 (xs ++ ⟨n, false⟩ :: ys) := by
  obtain ⟨hmem, hptr, hend, hsize, hused, hmax, hlf⟩ := lower_fields h ptr
  rw [hp, hf] at hlf
  obtain ⟨h', bs', hplug, hmerged, hbs'⟩ := plugHoles_spec (hl.same hmem hptr hend hsize) hp hlf hxs hys
  refine ⟨h', bs', hplug, ⟨hmerged.layout, hbs', hmerged.lfree, ?_, ?_⟩, ?_, hmem ▸ hmerged.frame, hmerged.spots⟩
  · rw [hmerged.usedMem, hmerged.usedLen, hused, hu]
  · rw [hmerged.usedMem, hmerged.maxMem, hused, hmax]
    exact hm
  · exact ⟨hmerged.placed.heapPtr.trans hptr, hmerged.placed.memSizeAligned.trans hsize⟩

/-- **`rt_free`** of a used block. -/
theorem rtFree_spec {n : ℕ} {rmem : UInt32} (hi : h.Inv (xs ++ ⟨n, true⟩ :: ys))
    (hr : rmem.toNat = h.heapPtr.toNat + extent xs + 12) :
    ∃ h' bs', h.rtFree rmem = some h' ∧ h'.Inv bs' ∧ Placed h h' ∧ Frame h.mem h'.mem bs' ∧
      spots 0 bs' = spots 0 xs ++ spots (extent xs + n) ys := by
  obtain ⟨hnull, halign, hge, hlt, hmem⟩ := hi.layout.address hr
  generalize hptr : rmem - SIZEOF_STRUCT_MEM - h.heapPtr = ptr at hmem
  have hblock := hi.layout.block hmem
  have hused : (h.header ptr).used ≠ 0 := by
    rw [header_eq, hblock.used]
    simp
  have hmagic : (h.header ptr).magic = HEAP_MAGIC := hblock.magic
  obtain ⟨hl, hframe⟩ := hi.layout.setUsed (u := false) (v := 0) hmem rfl
  have hnext : (hdr (h.set ptr { h.header ptr with used := 0, magic := HEAP_MAGIC }).mem ptr.toNat).next =
      (h.header ptr).next := by rw [mem_set, hdr_put]
  generalize hset : h.set ptr { h.header ptr with used := 0, magic := HEAP_MAGIC } = h₁ at hl hframe hnext
  have hpos : ∀ b ∈ xs, 0 < b.len := fun b hb =>
    Nat.lt_of_lt_of_le (by decide) (hi.layout.roomy b (List.mem_append_left _ hb)).1
  have hn : 16 ≤ n := (hi.layout.roomy ⟨n, true⟩ (by simp)).1
  have hplace : Placed h h₁ ∧ h₁.lfree = h.lfree ∧ h₁.usedMem = h.usedMem ∧ h₁.maxMem = h.maxMem := by
    rw [← hset]
    exact ⟨⟨rfl, rfl⟩, rfl, rfl, rfl⟩
  obtain ⟨hplace, hlf₁, hu₁, hm₁⟩ := hplace
  -- the block may be the lowest free one now
  have hlower : firstFree 0 (xs ++ ⟨n, false⟩ :: ys) = if extent xs < firstFree 0 (xs ++ ⟨n, true⟩ :: ys) then
      extent xs else firstFree 0 (xs ++ ⟨n, true⟩ :: ys) := by
    have hff := firstFree_lower (n := n) [] ys hpos (fun b hb => by cases hb) (show 0 < n by omega)
    rwa [List.append_nil] at hff
  obtain ⟨hxs, hys, -, -⟩ := coalesced_iff.1 hi.coalesced
  have hdiff : ((h₁.header ptr).next - ptr).toNat = n := by
    have hnext' : (h₁.header ptr).next.toNat = ptr.toNat + n := by
      rw [header_eq, hnext]
      exact hblock.next
    rw [UInt32.toNat_sub_of_le _ _ (by rw [UInt32.le_iff_toNat_le]; omega)]
    omega
  let u := h₁.usedMem - ((h₁.header ptr).next - ptr)
  have husedLen : usedLen (xs ++ ⟨n, true⟩ :: ys) = n + usedLen (xs ++ ⟨n, false⟩ :: ys) := by
    simp only [usedLen_append, usedLen]
    simp
    omega
  have hu : u.toNat = usedLen (xs ++ ⟨n, false⟩ :: ys) := by
    have hold := hi.used
    rw [husedLen, ← hu₁] at hold
    rw [UInt32.toNat_sub_of_le _ _ (by rw [UInt32.le_iff_toNat_le]; omega), hdiff]
    omega
  have hmax : u.toNat ≤ h₁.maxMem.toNat := by
    have hold := hi.used
    have := hi.max
    rw [hm₁]
    omega
  have hl₂ : Layout { h₁ with usedMem := u } (xs ++ ⟨n, false⟩ :: ys) := hl.same rfl rfl rfl rfl
  obtain ⟨h', bs', hplug, hinv, hplace', hframe', hspots⟩ :=
    release_spec hl₂ hmem (by rw [hlower, ← hi.lfree, ← hlf₁]) hxs hys hu hmax
  refine ⟨h', bs', ?_, hinv, hplace.trans ⟨hplace'.heapPtr, hplace'.memSizeAligned⟩,
    (hframe.congr hspots).trans hframe', ?_⟩
  · have hcomm : ({ h₁ with usedMem := u } : Heap).lower ptr =
        { h₁.lower ptr with usedMem := (h₁.lower ptr).usedMem - (((h₁.lower ptr).header ptr).next - ptr) } := by
      obtain ⟨hmem', -, -, -, hused', -⟩ := lower_fields h₁ ptr
      rw [header_eq, hmem', hused']
      unfold Heap.lower
      split_ifs <;> rfl
    unfold Heap.rtFree
    rw [if_neg hnull, if_pos ⟨halign, hge, hlt⟩, hptr, if_pos ⟨hused, hmagic⟩, hset]
    rw [hcomm] at hplug
    exact hplug
  · rw [hspots, spots_append, spots]
    simp

/-! ## `rt_malloc` -/

/-- What the loops read of a block. -/
theorem Layout.read (hl : Layout h (xs ++ b :: ys)) (hp : ptr.toNat = extent xs) :
    (h.header ptr).next.toNat = extent xs + b.len ∧
      ((h.header ptr).next - (ptr + SIZEOF_STRUCT_MEM)).toNat = b.len - 12 ∧
      ((h.header ptr).used = 0 ↔ b.used = false) := by
  have hblock := hl.block hp
  have hspace := hl.space
  have hlen := (hl.roomy b (by simp)).1
  simp only [extent_append, extent] at hspace
  have hnext : (h.header ptr).next.toNat = ptr.toNat + b.len := hblock.next
  have hsum : (ptr + SIZEOF_STRUCT_MEM).toNat = ptr.toNat + 12 := by
    rw [UInt32.toNat_add]
    exact Nat.mod_eq_of_lt (by show ptr.toNat + 12 < _; omega)
  refine ⟨by omega, ?_, ?_⟩
  · rw [UInt32.toNat_sub_of_le _ _ (by rw [UInt32.le_iff_toNat_le]; omega)]
    omega
  · rw [header_eq, hblock.used]
    cases b.used <;> simp

/-- A free block that is large enough for `size` bytes and a header. -/
def FitsIn (size : ℕ) (b : Block) : Prop := b.used = false ∧ size + 12 ≤ b.len

/-- Behind `xs` is the first block that is large enough, other than one that the end of the heap exactly fits. -/
def FirstFit (bs : List Block) (size : ℕ) (xs : List Block) : Prop :=
  ∃ b ys, bs = xs ++ b :: ys ∧ FitsIn size b ∧ ¬ (ys = [] ∧ b.len = size + 12) ∧ ∀ c ∈ xs, ¬ FitsIn size c

/-- The blocks of a heap up to `ptr`. -/
def Reached (bs : List Block) (P : Block → Prop) (ptr : UInt32) : Prop :=
  ∃ xs ys, bs = xs ++ ys ∧ ptr.toNat = extent xs ∧ ∀ b ∈ xs, P b

theorem fuel_enough (hl : Layout h bs) : (extent bs - ptr.toNat) / 16 < h.fuel := by
  have hsize := hl.size
  unfold Heap.fuel
  omega

/-- **The search for a block** finds the first that is large enough, other than one that the end of the heap
exactly fits. -/
theorem find_spec {size : UInt32} (hl : Layout h bs) (hf : h.lfree.toNat = firstFree 0 bs)
    (hsize : size ≤ h.memSizeAligned) : ∃ r, loop (h.find size) h.fuel h.lfree = some r ∧
      (r = none ∧ (∀ xs b ys, bs = xs ++ b :: ys → FitsIn size.toNat b → ys = [] ∧ b.len = size.toNat + 12) ∨
        ∃ ptr xs, r = some ptr ∧ ptr.toNat = extent xs ∧ FirstFit bs size.toNat xs) := by
  have hroom : (h.memSizeAligned - size).toNat = h.memSizeAligned.toNat - size.toNat :=
    UInt32.toNat_sub_of_le _ _ hsize
  have htotal := hl.size
  rw [UInt32.le_iff_toNat_le] at hsize
  have hstart : Reached bs (fun b => ¬ FitsIn size.toNat b) h.lfree := by
    obtain ⟨xs, ys, rfl, hall, hff, -⟩ := exists_firstFree 0 bs
    exact ⟨xs, ys, rfl, by rw [hf, hff, Nat.zero_add], fun b hb hfit => absurd hfit.1 (by simp [hall b hb])⟩
  -- what one pass sees
  have hpass {ptr : UInt32} {xs ys : List Block} (hcut : bs = xs ++ ys) (hp : ptr.toNat = extent xs)
      (hlt : ptr < h.memSizeAligned - size) : ∃ b zs, ys = b :: zs ∧ (h.header ptr).next.toNat = extent (xs ++ [b]) ∧
        ((h.header ptr).used = 0 ∧ (h.header ptr).next - (ptr + SIZEOF_STRUCT_MEM) ≥ size ↔ FitsIn size.toNat b) := by
    cases ys with
    | nil =>
      rw [UInt32.lt_iff_toNat_lt, hroom, hp] at hlt
      rw [hcut, List.append_nil] at htotal
      omega
    | cons b zs =>
      rw [hcut] at hl
      obtain ⟨hnext, hdata, hused⟩ := hl.read hp
      have hlen := (hl.roomy b (by simp)).1
      refine ⟨b, zs, rfl, by simp [hnext, extent], ?_⟩
      rw [hused, ge_iff_le, UInt32.le_iff_toNat_le, hdata, FitsIn]
      exact and_congr_right fun _ => by omega
  refine loop_total (I := Reached bs fun b => ¬ FitsIn size.toNat b) (fun ptr => (extent bs - ptr.toNat) / 16)
    ?_ ?_ hstart (fuel_enough hl)
  · rintro ptr ptr' ⟨xs, ys, hcut, hp, hxs⟩ hbody
    simp only [Heap.find] at hbody
    split_ifs at hbody with hlt hfit
    cases hbody
    obtain ⟨b, zs, rfl, hnext, hiff⟩ := hpass hcut hp hlt
    have hroomy := hl.roomy b (by rw [hcut]; simp)
    refine ⟨⟨xs ++ [b], zs, by simp [hcut], hnext, ?_⟩, ?_⟩
    · intro c hc
      rcases List.mem_append.1 hc with hc | hc
      · exact hxs c hc
      · rw [List.mem_singleton.1 hc]
        exact fun hfits => hfit (hiff.2 hfits)
    · rw [hcut, hnext, hp]
      simp only [extent_append, extent]
      omega
  · rintro ptr r ⟨xs, ys, hcut, hp, hxs⟩ hbody
    simp only [Heap.find] at hbody
    split_ifs at hbody with hlt hfit
    · cases hbody
      obtain ⟨b, zs, rfl, -, hiff⟩ := hpass hcut hp hlt
      refine Or.inr ⟨ptr, xs, rfl, hp, b, zs, hcut, hiff.1 hfit, ?_, hxs⟩
      rintro ⟨rfl, hlen⟩
      rw [UInt32.lt_iff_toNat_lt, hroom, hp] at hlt
      rw [hcut] at htotal
      simp only [extent_append, extent] at htotal
      omega
    · cases hbody
      refine Or.inl ⟨rfl, fun xs' b' ys' hcut' hfits => ?_⟩
      rw [UInt32.lt_iff_toNat_lt, hroom, hp] at hlt
      have hpos : extent xs ≤ extent xs' := by
        rcases List.append_eq_append_iff.1 (hcut.symm.trans hcut') with ⟨as, rfl, -⟩ | ⟨cs, rfl, hcs⟩
        · simp
        · cases cs with
          | nil => simp
          | cons c cs =>
            obtain ⟨rfl, -⟩ := List.cons.inj hcs
            exact absurd hfits (hxs _ (by simp))
      have hext : extent bs = extent xs' + b'.len + extent ys' := by
        rw [hcut']
        simp only [extent_append, extent]
        omega
      have hfits' := hfits.2
      refine ⟨?_, by omega⟩
      by_contra hne
      have := extent_pos (fun c hc => hl.roomy c (by rw [hcut']; simp [hc])) hne
      omega

/-- **The search for the lowest free block.** -/
theorem nextFree_spec (hl : Layout h bs) (hstart : Reached bs (fun b => b.used = true) ptr) :
    ∃ r, loop h.nextFree h.fuel ptr = some r ∧ r.toNat = firstFree 0 bs := by
  refine loop_total (I := Reached bs fun b => b.used = true) (fun ptr => (extent bs - ptr.toNat) / 16)
    ?_ ?_ hstart (fuel_enough hl)
  · rintro ptr ptr' ⟨xs, ys, rfl, hp, hxs⟩ hbody
    unfold Heap.nextFree at hbody
    split_ifs at hbody with hused
    cases hbody
    cases ys with
    | nil =>
      have hstop := hl.stop
      rw [List.append_nil, ← hp] at hstop
      exact absurd (UInt32.toNat_inj.1 hstop).symm hused.2
    | cons b ys =>
      obtain ⟨hnext, -, hiff⟩ := hl.read hp
      have hlen := (hl.roomy b (by simp)).1
      refine ⟨⟨xs ++ [b], ys, by simp, by simp [hnext, extent], ?_⟩, ?_⟩
      · intro c hc
        rcases List.mem_append.1 hc with hc | hc
        · exact hxs c hc
        · rw [List.mem_singleton.1 hc, ← Bool.not_eq_false]
          exact fun hfree => hused.1 (hiff.2 hfree)
      · rw [hnext, hp]
        simp only [extent_append, extent]
        omega
  · rintro ptr r ⟨xs, ys, rfl, hp, hxs⟩ hbody
    unfold Heap.nextFree at hbody
    split_ifs at hbody with hused
    cases hbody
    rw [firstFree_append, if_pos (show AllUsed xs from hxs), hp]
    cases ys with
    | nil => simp [firstFree]
    | cons b ys =>
      obtain ⟨hnext, -, hiff⟩ := hl.read hp
      have hend : ptr ≠ h.heapEnd := by
        rintro rfl
        have hstop := hl.stop
        have hlen := (hl.roomy b (by simp)).1
        simp only [extent_append, extent] at hstop
        omega
      have hfree : b.used = false := hiff.1 (by
        by_contra hne
        exact hused ⟨hne, hend⟩)
      rw [firstFree, hfree]
      simp

/-! ### Taking a block -/

theorem Frame.sub {m m' : ℕ → UInt8} (hf : Frame m m' bs') (hs : spots 0 bs ⊆ spots 0 bs') : Frame m m' bs :=
  fun a n ha => hf a n (hs ha)

theorem split_fields (h : Heap) (ptr ptr2 : UInt32) : (h.split ptr ptr2).memSizeAligned = h.memSizeAligned ∧
    (h.split ptr ptr2).heapPtr = h.heapPtr ∧ (h.split ptr ptr2).usedMem = h.usedMem ∧
    (h.split ptr ptr2).maxMem = h.maxMem ∧ (h.split ptr ptr2).lfree = h.lfree := by
  simp only [Heap.split]
  split_ifs <;> simp

/-- The block behind `xs` is taken with the length `k`. -/
structure Taken (h : Heap) (xs : List Block) (k : ℕ) (zs : List Block) (h' : Heap) : Prop where
  layout : Layout h' (xs ++ ⟨k, true⟩ :: zs)
  frame : Frame h.mem h'.mem (xs ++ ⟨k, false⟩ :: zs)
  placed : Placed h h'
  lfree : h'.lfree = h.lfree
  usedMem : h'.usedMem.toNat = h.usedMem.toNat + k
  maxMem : h'.usedMem.toNat ≤ h'.maxMem.toNat

theorem take_spec {k : ℕ} {zs : List Block} {d : UInt32} (hl : Layout h (xs ++ ⟨k, false⟩ :: zs))
    (hp : ptr.toNat = extent xs) (hd : d.toNat = k) (hu : h.usedMem.toNat + k < 4294967296) :
    Taken h xs k zs ((h.set ptr { h.header ptr with used := 1, magic := HEAP_MAGIC }).addUsed d) := by
  obtain ⟨hl', hframe⟩ := hl.setUsed (u := true) (v := 1) hp rfl
  have hsum : (h.usedMem + d).toNat = h.usedMem.toNat + k := by
    rw [UInt32.toNat_add, hd]
    exact Nat.mod_eq_of_lt hu
  refine ⟨hl'.same rfl rfl rfl rfl, ?_, ⟨rfl, rfl⟩, rfl, hsum, ?_⟩
  · refine Frame.sub (hframe : Frame h.mem _ _) ?_
    rw [spots_append, spots_append]
    exact List.append_subset.2 ⟨List.subset_append_left _ _, fun a ha => List.mem_append_right _
      (List.mem_cons_of_mem _ ha)⟩
  · show (h.usedMem + d).toNat ≤ (if h.maxMem < h.usedMem + d then h.usedMem + d else h.maxMem).toNat
    split_ifs with hlt
    · exact Nat.le_refl _
    · rw [UInt32.lt_iff_toNat_lt] at hlt
      omega

/-- The block found is taken, in two parts if it is large. -/
theorem carve_spec {n : ℕ} {size : UInt32} (hi : h.Inv (xs ++ ⟨n, false⟩ :: ys)) (hp : ptr.toNat = extent xs)
    (hsize : 12 ≤ size.toNat) (hmod : size.toNat % 4 = 0) (hfit : size.toNat + 12 ≤ n) :
    ∃ k rest, size.toNat + 12 ≤ k ∧ (rest = [] ∧ k = n ∨ rest = [⟨n - k, false⟩] ∧ k ≤ n) ∧
      Taken h xs k (rest ++ ys) (h.carve size ptr) := by
  obtain ⟨hnext, hdata, -⟩ := hi.layout.read hp
  have hspace := hi.layout.space
  have hused := hi.used
  have hle : usedLen (xs ++ ⟨n, false⟩ :: ys) + n ≤ extent (xs ++ ⟨n, false⟩ :: ys) := by
    have hx : usedLen xs ≤ extent xs := usedLen_le
    have hy : usedLen ys ≤ extent ys := usedLen_le
    simp only [usedLen_append, extent_append, usedLen, extent]
    simp
    omega
  have hext : extent (xs ++ ⟨n, false⟩ :: ys) = extent xs + n + extent ys := by
    simp only [extent_append, extent]
    omega
  have hsum : (size + SIZEOF_STRUCT_MEM).toNat = size.toNat + 12 := by
    rw [UInt32.toNat_add]
    exact Nat.mod_eq_of_lt (by show size.toNat + 12 < _; omega)
  have hsum' : (size + SIZEOF_STRUCT_MEM + MIN_SIZE_ALIGNED).toNat = size.toNat + 24 := by
    rw [UInt32.toNat_add, hsum]
    exact Nat.mod_eq_of_lt (by show size.toNat + 12 + 12 < _; omega)
  simp only [Heap.carve]
  split_ifs with hlarge
  · rw [ge_iff_le, UInt32.le_iff_toNat_le, hdata, hsum'] at hlarge
    have hlarge' : size.toNat + 24 ≤ n - 12 := hlarge
    have hp2 : (ptr + SIZEOF_STRUCT_MEM + size).toNat = extent xs + (size.toNat + 12) := by
      have hone : (ptr + SIZEOF_STRUCT_MEM).toNat = ptr.toNat + 12 := by
        rw [UInt32.toNat_add]
        exact Nat.mod_eq_of_lt (by show ptr.toNat + 12 < _; omega)
      rw [UInt32.toNat_add, hone, Nat.mod_eq_of_lt (by omega)]
      omega
    obtain ⟨hl, hframe⟩ := hi.layout.split hp hp2 (by omega) (by omega) (by show _ ≤ n; omega)
    obtain ⟨hs, hptr, hu, hm, hlf⟩ := split_fields h ptr (ptr + SIZEOF_STRUCT_MEM + size)
    generalize h.split ptr (ptr + SIZEOF_STRUCT_MEM + size) = h₁ at hl hframe hs hptr hu hm hlf ⊢
    have ht : Taken h₁ xs (size.toNat + 12) (⟨n - (size.toNat + 12), false⟩ :: ys) _ :=
      take_spec hl hp hsum (by rw [hu, hused]; omega)
    refine ⟨size.toNat + 12, [⟨n - (size.toNat + 12), false⟩], Nat.le_refl _, Or.inr ⟨rfl, by omega⟩, ht.layout,
      hframe.trans ht.frame, ⟨ht.placed.heapPtr.trans hptr, ht.placed.memSizeAligned.trans hs⟩, ht.lfree.trans hlf, ?_,
      ht.maxMem⟩
    rw [ht.usedMem, hu]
  · have hd : ((h.header ptr).next - ptr).toNat = n := by
      have hnext' : (h.header ptr).next.toNat = extent xs + n := hnext
      rw [UInt32.toNat_sub_of_le _ _ (by rw [UInt32.le_iff_toNat_le]; omega)]
      omega
    exact ⟨n, [], hfit, Or.inl ⟨rfl, rfl⟩, take_spec hi.layout hp hd (by rw [hused]; omega)⟩

/-- The bytes that a block for a request of `n` bytes has to have: a multiple of four, and at least
twelve.  The three largest requests wrap around in `RT_ALIGN`. -/
def room (n : ℕ) : ℕ := if n ≤ 4294967292 then max 12 ((n + 3) / 4 * 4) else 12

/-- What `rt_malloc` asks for. -/
def demand (n : UInt32) : UInt32 :=
  if rtAlign n RT_ALIGN_SIZE < MIN_SIZE_ALIGNED then MIN_SIZE_ALIGNED else rtAlign n RT_ALIGN_SIZE

theorem demand_toNat (n : UInt32) : (demand n).toNat = room n.toNat := by
  have halign := rtAlign_toNat n
  have hlt := n.toNat_lt
  unfold demand room
  split_ifs with h hn hn <;> rw [UInt32.lt_iff_toNat_lt] at h
  · have h' : (rtAlign n RT_ALIGN_SIZE).toNat < 12 := h
    show 12 = _
    omega
  · rfl
  · have h' : ¬ (rtAlign n RT_ALIGN_SIZE).toNat < 12 := h
    omega
  · have h' : ¬ (rtAlign n RT_ALIGN_SIZE).toNat < 12 := h
    omega

theorem demand_bounds (n : UInt32) : 12 ≤ (demand n).toNat ∧ (demand n).toNat % 4 = 0 ∧
    (n.toNat ≤ 4294967292 → n.toNat ≤ (demand n).toNat) := by
  rw [demand_toNat, room]
  split_ifs <;> omega

/-- `r` is the address of a new used block behind `xs`, with room for `n` bytes. -/
def Granted (h : Heap) (bs xs : List Block) (n r : UInt32) (bs' : List Block) : Prop :=
  ∃ B k, spots 0 bs = spots 0 xs ++ B ∧ spots 0 bs' = spots 0 xs ++ (extent xs, k) :: B ∧
    r.toNat = h.heapPtr.toNat + extent xs + 12 ∧ (demand n).toNat + 12 ≤ k

/-- Nothing is asked for, or more than the heap has, or no block is large enough for `n` bytes, but perhaps one
that the end of the heap exactly fits. -/
def Refused (h : Heap) (bs : List Block) (n : ℕ) : Prop :=
  n = 0 ∨ (h.memSizeAligned.toNat < n ∧ n ≤ 4294967292) ∨
    ∀ xs b ys, bs = xs ++ b :: ys → FitsIn (room n) b → ys = [] ∧ b.len = room n + 12

/-- A multiple of four is exceeded by a request if it is by its size. -/
theorem rtAlign_gt_iff {M n : UInt32} (hM : M.toNat % 4 = 0) :
    rtAlign n RT_ALIGN_SIZE > M ↔ M.toNat < n.toNat ∧ n.toNat ≤ 4294967292 := by
  have hlt := n.toNat_lt
  rw [gt_iff_lt, UInt32.lt_iff_toNat_lt, rtAlign_toNat]
  omega

/-- The blocks after a free one was taken. -/
theorem taken_blocks {n k : ℕ} {rest : List Block} (hc : Coalesced (xs ++ ⟨n, false⟩ :: ys))
    (hrest : rest = [] ∧ k = n ∨ rest = [⟨n - k, false⟩] ∧ k ≤ n) :
    Coalesced (xs ++ ⟨k, true⟩ :: (rest ++ ys)) ∧
      usedLen (xs ++ ⟨k, true⟩ :: (rest ++ ys)) = usedLen (xs ++ ⟨n, false⟩ :: ys) + k ∧
      spots 0 (xs ++ ⟨n, false⟩ :: ys) = spots 0 xs ++ spots (extent xs + n) ys ∧
      spots 0 (xs ++ ⟨k, false⟩ :: (rest ++ ys)) = spots 0 xs ++ spots (extent xs + n) ys ∧
      spots 0 (xs ++ ⟨k, true⟩ :: (rest ++ ys)) = spots 0 xs ++ (extent xs, k) :: spots (extent xs + n) ys := by
  obtain ⟨hxs, hys, -, hhead⟩ := coalesced_iff.1 hc
  refine ⟨coalesced_iff.2 ⟨hxs, ?_, fun _ _ => Or.inr rfl, fun _ _ => Or.inl rfl⟩, ?_, ?_, ?_, ?_⟩
  · rcases hrest with ⟨rfl, -⟩ | ⟨rfl, -⟩
    · exact hys
    · exact List.isChain_cons.2 ⟨fun c hc => Or.inr ((hhead c hc).resolve_left (by simp)), hys⟩
  · rcases hrest with ⟨rfl, rfl⟩ | ⟨rfl, -⟩ <;> simp [usedLen] <;> omega
  · simp [spots_append, spots]
  · rcases hrest with ⟨rfl, rfl⟩ | ⟨rfl, hle⟩
    · simp [spots_append, spots]
    · have hsum : extent xs + (k + (n - k)) = extent xs + n := by omega
      simp [spots_append, spots, Nat.add_assoc, hsum]
  · rcases hrest with ⟨rfl, rfl⟩ | ⟨rfl, hle⟩
    · simp [spots_append, spots]
    · have hsum : extent xs + (k + (n - k)) = extent xs + n := by omega
      simp [spots_append, spots, Nat.add_assoc, hsum]

theorem grant_spec {n : UInt32} (hi : h.Inv (xs ++ b :: ys)) (hp : ptr.toNat = extent xs)
    (hfit : FitsIn (demand n).toNat b) :
    ∃ h' r bs', h.grant (demand n) ptr = some (h', r) ∧ h'.Inv bs' ∧ Placed h h' ∧
      Frame h.mem h'.mem (xs ++ b :: ys) ∧ Granted h (xs ++ b :: ys) xs n r bs' := by
  obtain ⟨hd12, hd4, -⟩ := demand_bounds n
  obtain ⟨len, u⟩ := b
  obtain ⟨rfl, hlen⟩ : u = false ∧ (demand n).toNat + 12 ≤ len := hfit
  obtain ⟨k, rest, hk, hrest, ht⟩ := carve_spec hi hp hd12 hd4 hlen
  obtain ⟨hcoal, husedLen, hspots, hfree, hspots'⟩ := taken_blocks hi.coalesced hrest
  have hpos : ∀ c ∈ xs, 0 < c.len := fun c hc =>
    Nat.lt_of_lt_of_le (by decide) (hi.layout.roomy c (List.mem_append_left _ hc)).1
  have hold : firstFree 0 (xs ++ ⟨len, false⟩ :: ys) = if AllUsed xs then 0 + extent xs else firstFree 0 xs :=
    firstFree_free rfl
  generalize hcarve : h.carve (demand n) ptr = h₁ at ht
  -- the lowest free block is looked for where the old one was taken
  have hlow : ∃ lf, (if ptr = h₁.lfree then
      (loop h₁.nextFree h₁.fuel h₁.lfree).map fun lfree => { h₁ with lfree := lfree }
      else some h₁) = some { h₁ with lfree := lf } ∧ lf.toNat = firstFree 0 (xs ++ ⟨k, true⟩ :: (rest ++ ys)) := by
    have hlf := hi.lfree
    rw [hold, ← ht.lfree] at hlf
    by_cases hall : AllUsed xs
    · rw [if_pos hall, Nat.zero_add, ← hp, UInt32.toNat_inj] at hlf
      obtain ⟨lf, hloop, hlf'⟩ := nextFree_spec ht.layout ⟨xs, _, rfl, hp, hall⟩
      refine ⟨lf, ?_, hlf'⟩
      rw [if_pos hlf.symm, hlf, hloop]
      rfl
    · rw [if_neg hall] at hlf
      have hlt := firstFree_lt (p := 0) hall hpos
      refine ⟨h₁.lfree, if_neg ?_, ?_⟩
      · intro he
        rw [← he, hp] at hlf
        omega
      · rw [hlf, firstFree_append, if_neg hall]
  obtain ⟨lf, hloop, hlf⟩ := hlow
  have hspace := hi.layout.space
  have hstop := ht.layout.stop
  have hspace' := ht.layout.space
  simp only [extent_append, extent] at hstop hspace'
  have haligned := hi.layout.aligned
  have hmod := (hi.layout.roomy.of_append.1).extent_mod
  have hptr := ht.placed.heapPtr
  rw [hptr] at hspace'
  have h₁sum : (h.heapPtr + ptr).toNat = h.heapPtr.toNat + extent xs := by
    rw [UInt32.toNat_add, hp]
    exact Nat.mod_eq_of_lt (by omega)
  have h₂sum : (h.heapPtr + ptr + SIZEOF_STRUCT_MEM).toNat = h.heapPtr.toNat + extent xs + 12 := by
    rw [UInt32.toNat_add, h₁sum]
    exact Nat.mod_eq_of_lt (by show _ + 12 < _; omega)
  have h₃sum : (h.heapPtr + ptr + SIZEOF_STRUCT_MEM + demand n).toNat =
      h.heapPtr.toNat + extent xs + 12 + (demand n).toNat := by
    rw [UInt32.toNat_add, h₂sum]
    exact Nat.mod_eq_of_lt (by omega)
  have h₄sum : (h.heapPtr + h₁.heapEnd).toNat = h.heapPtr.toNat + h₁.heapEnd.toNat := by
    rw [UInt32.toNat_add]
    exact Nat.mod_eq_of_lt (by omega)
  have hinside : h.heapPtr + ptr + SIZEOF_STRUCT_MEM + demand n ≤ h.heapPtr + h₁.heapEnd := by
    rw [UInt32.le_iff_toNat_le, h₃sum, h₄sum]
    omega
  have hdiv : (h.heapPtr + ptr + SIZEOF_STRUCT_MEM) % RT_ALIGN_SIZE = 0 := by
    apply UInt32.toNat_inj.1
    rw [UInt32.toNat_mod, h₂sum]
    show (h.heapPtr.toNat + extent xs + 12) % 4 = 0
    omega
  refine ⟨{ h₁ with lfree := lf }, h.heapPtr + ptr + SIZEOF_STRUCT_MEM, xs ++ ⟨k, true⟩ :: (rest ++ ys), ?_,
    ⟨ht.layout.same rfl rfl rfl rfl, hcoal, hlf, ?_, ht.maxMem⟩, ⟨hptr, ht.placed.memSizeAligned⟩, ?_,
    spots (extent xs + len) ys, k, hspots, hspots', h₂sum, hk⟩
  · simp only [Heap.grant]
    rw [hcarve, hloop, Option.bind_some]
    simp only [hptr]
    exact if_pos ⟨hinside, hdiv⟩
  · show h₁.usedMem.toNat = _
    rw [ht.usedMem, hi.used, husedLen]
  · exact ht.frame.congr (hspots.trans hfree.symm)

/-- **`rt_malloc`.** -/
theorem rtMalloc_spec (hi : h.Inv bs) (hM : 12 ≤ h.memSizeAligned.toNat) (n : UInt32) :
    ∃ h' r bs', h.rtMalloc n = some (h', r) ∧ h'.Inv bs' ∧ Placed h h' ∧ Frame h.mem h'.mem bs ∧
      (r = 0 ∧ h' = h ∧ bs' = bs ∧ Refused h bs n.toNat ∨
        ¬ Refused h bs n.toNat ∧ ∃ xs, FirstFit bs (room n.toNat) xs ∧ Granted h bs xs n r bs') := by
  have hmod : h.memSizeAligned.toNat % 4 = 0 := by
    have hsize := hi.layout.size
    have hextent := hi.layout.roomy.extent_mod
    omega
  unfold Heap.rtMalloc
  by_cases hzero : n = 0
  · rw [if_pos hzero]
    exact ⟨h, 0, bs, rfl, hi, ⟨rfl, rfl⟩, .refl _ _, Or.inl ⟨rfl, rfl, rfl, Or.inl (by rw [hzero]; rfl)⟩⟩
  rw [if_neg hzero]
  by_cases hbig : rtAlign n RT_ALIGN_SIZE > h.memSizeAligned
  · exact ⟨h, 0, bs, if_pos hbig, hi, ⟨rfl, rfl⟩, .refl _ _,
      Or.inl ⟨rfl, rfl, rfl, Or.inr (Or.inl ((rtAlign_gt_iff hmod).1 hbig))⟩⟩
  have hdemand : demand n ≤ h.memSizeAligned := by
    rw [gt_iff_lt, UInt32.lt_iff_toNat_lt, Nat.not_lt] at hbig
    unfold demand
    rw [UInt32.le_iff_toNat_le]
    split_ifs
    · exact hM
    · exact hbig
  obtain ⟨r, hloop, hr⟩ := find_spec hi.layout hi.lfree hdemand
  rw [demand_toNat] at hr
  have hfold : (if rtAlign n RT_ALIGN_SIZE < MIN_SIZE_ALIGNED then MIN_SIZE_ALIGNED else rtAlign n RT_ALIGN_SIZE) =
      demand n := rfl
  simp only [if_neg hbig, hfold, hloop, Option.bind_some]
  rcases hr with ⟨rfl, hnone⟩ | ⟨ptr, xs, rfl, hp, hfirst⟩
  · exact ⟨h, 0, bs, rfl, hi, ⟨rfl, rfl⟩, .refl _ _, Or.inl ⟨rfl, rfl, rfl, Or.inr (Or.inr hnone)⟩⟩
  · obtain ⟨b, ys, rfl, hfit, hend, hxs⟩ := hfirst
    obtain ⟨h', r, bs', hgrant, hinv, hplaced, hframe, hgranted⟩ := grant_spec hi hp (by rwa [demand_toNat])
    refine ⟨h', r, bs', hgrant, hinv, hplaced, hframe, Or.inr ⟨?_, xs, ⟨b, ys, rfl, hfit, hend, hxs⟩, hgranted⟩⟩
    rintro (hn | hn | hn)
    · exact hzero (UInt32.toNat_inj.1 (by rw [hn]; rfl))
    · exact hbig ((rtAlign_gt_iff hmod).2 hn)
    · exact hend (hn xs b ys rfl hfit)

end DataRecorder.Kernel
