/-
  The heap as its callers see it.

  The used blocks are known by their positions, in any order.

  * `Layout.write`: data may be written without harm to the headers;
  * `rtFree_used`: a block is given back;
  * `rtRealloc_used`: a block is shortened where it is, or moved with what it holds.
-/
import DataRecorder.Kernel.HeapCalls

namespace DataRecorder.Kernel

open Base

variable {h h' : Heap} {bs bs' xs ys : List Block} {p n : ℕ} {r : UInt32}

/-! ## Data -/

theorem Tail.congr {m m' : ℕ → UInt8} {prev : ℕ} (ht : Tail m p prev bs)
    (hm : ∀ xs ys, bs = xs ++ ys → hdr m' (p + extent xs) = hdr m (p + extent xs)) : Tail m' p prev bs := by
  induction bs generalizing p prev with
  | nil =>
    have he := hm [] [] rfl
    rw [extent, Nat.add_zero] at he
    rw [Tail, he]
    exact ht
  | cons b bs ih =>
    have he := hm [] (b :: bs) rfl
    rw [extent, Nat.add_zero] at he
    refine ⟨ht.1.congr he, ih ht.2 fun xs ys hcut => ?_⟩
    have hb := hm (b :: xs) ys (by rw [hcut]; rfl)
    rwa [extent, ← Nat.add_assoc] at hb

/-- Bytes in the data of a used block. -/
theorem hdr_blit {m : ℕ → UInt8} {l : List UInt8} {o : ℕ} (hs : (p, n) ∈ spots 0 (xs ++ ys)) (ho : 12 ≤ o)
    (hl : o + l.length ≤ n) : hdr (blit m (p + o) l) (extent xs) = hdr m (extent xs) := by
  have hapart := spots_apart hs
  exact hdr_congr fun i _ _ => blit_outside m (by omega)

theorem Layout.write {l : List UInt8} {o : ℕ} (hl : Layout h bs) (hs : (p, n) ∈ spots 0 bs) (ho : 12 ≤ o)
    (hlen : o + l.length ≤ n) : Layout { h with mem := blit h.mem (p + o) l } bs := by
  refine ⟨hl.size, hl.stop, hl.space, hl.aligned, hl.roomy, hl.tail.congr fun xs ys hcut => ?_⟩
  rw [Nat.zero_add]
  exact hdr_blit (hcut ▸ hs) ho hlen

theorem Heap.Inv.write {l : List UInt8} {o : ℕ} (hi : h.Inv bs) (hs : (p, n) ∈ spots 0 bs) (ho : 12 ≤ o)
    (hlen : o + l.length ≤ n) : Heap.Inv { h with mem := blit h.mem (p + o) l } bs :=
  ⟨hi.layout.write hs ho hlen, hi.coalesced, hi.lfree, hi.used, hi.max⟩

/-! ## The calls -/

/-- `p` is the position of the block with the address `r`. -/
def Heap.Addr (h : Heap) (r : UInt32) (p : ℕ) : Prop := r.toNat = h.heapPtr.toNat + p + 12

theorem rtFree_used (hi : h.Inv bs) (hs : (p, n) ∈ spots 0 bs) (hr : h.Addr r p) :
    ∃ h' bs', h.rtFree r = some h' ∧ h'.Inv bs' ∧ Placed h h' ∧ Frame h.mem h'.mem bs' ∧
      (spots 0 bs).Perm ((p, n) :: spots 0 bs') := by
  obtain ⟨xs, ⟨len, u⟩, ys, rfl, hu, rfl, rfl⟩ := mem_spots.1 hs
  obtain rfl : u = true := hu
  rw [Heap.Addr, Nat.zero_add] at hr
  obtain ⟨h', bs', hcall, hinv, hplaced, hframe, hspots⟩ := rtFree_spec hi hr
  refine ⟨h', bs', hcall, hinv, hplaced, hframe, ?_⟩
  rw [hspots, spots_append, spots, Nat.zero_add]
  exact List.perm_middle

theorem rtMalloc_used (hi : h.Inv bs) (hM : 12 ≤ h.memSizeAligned.toNat) (size : UInt32) :
    ∃ h' r bs', h.rtMalloc size = some (h', r) ∧ h'.Inv bs' ∧ Placed h h' ∧ Frame h.mem h'.mem bs ∧
      (r = 0 ∧ h' = h ∧ bs' = bs ∧ Refused h bs size.toNat ∨
        ∃ p k, (spots 0 bs').Perm ((p, k) :: spots 0 bs) ∧ h.Addr r p ∧ (demand size).toNat + 12 ≤ k) := by
  obtain ⟨h', r, bs', hcall, hinv, hplaced, hframe, hr⟩ := rtMalloc_spec hi hM size
  refine ⟨h', r, bs', hcall, hinv, hplaced, hframe, hr.imp_right ?_⟩
  rintro ⟨-, xs, -, B, k, hold, hnew, haddr, hk⟩
  refine ⟨extent xs, k, ?_, haddr, hk⟩
  rw [hold, hnew]
  exact List.perm_middle

/-- `d` bytes of the block at `p` with the length `n` are in the block at `q` now, or all if it has less.  The
blocks `C` are the others. -/
structure Resized (h h' : Heap) (p n q d : ℕ) (C : List (ℕ × ℕ)) : Prop where
  moved : ∀ i, 12 ≤ i → i < n → i < d + 12 → h'.mem (q + i) = h.mem (p + i)
  others : ∀ a m, (a, m) ∈ C → ∀ i, 12 ≤ i → i < m → h'.mem (a + i) = h.mem (a + i)

theorem Resized.refl (h : Heap) (p n d : ℕ) (C : List (ℕ × ℕ)) : Resized h h p n p d C :=
  ⟨fun _ _ _ _ => rfl, fun _ _ _ _ _ _ => rfl⟩

/-- What `rt_realloc` calculates from the address. -/
theorem Layout.realloc_addr {b : Block} (hl : Layout h (xs ++ b :: ys)) (hr : h.Addr r (extent xs)) :
    r ≠ 0 ∧ ¬ (r < h.heapPtr ∨ r ≥ h.heapPtr + h.heapEnd) ∧ (r - SIZEOF_STRUCT_MEM - h.heapPtr).toNat = extent xs ∧
      ((h.header (r - SIZEOF_STRUCT_MEM - h.heapPtr)).next - (r - SIZEOF_STRUCT_MEM - h.heapPtr) -
        SIZEOF_STRUCT_MEM).toNat = b.len - 12 := by
  obtain ⟨hnull, -, hge, hlt, hmem⟩ := hl.address hr
  obtain ⟨hnext, -, -⟩ := hl.read hmem
  have hlen := (hl.roomy b (by simp)).1
  refine ⟨hnull, ?_, hmem, ?_⟩
  · rw [not_or, ge_iff_le, UInt32.not_le, UInt32.not_lt]
    exact ⟨hge, hlt⟩
  · have hone : ((h.header (r - SIZEOF_STRUCT_MEM - h.heapPtr)).next - (r - SIZEOF_STRUCT_MEM - h.heapPtr)).toNat =
        b.len := by
      rw [UInt32.toNat_sub_of_le _ _ (by rw [UInt32.le_iff_toNat_le]; omega)]
      omega
    rw [UInt32.toNat_sub_of_le _ _ (by rw [UInt32.le_iff_toNat_le, hone]; show 12 ≤ _; omega), hone]
    rfl

/-- The end of a used block becomes free. -/
theorem shrink_spec {len : ℕ} {d ptr : UInt32} (hi : h.Inv (xs ++ ⟨len, true⟩ :: ys)) (hp : ptr.toNat = extent xs)
    (hd : 4 ≤ d.toNat) (hd4 : d.toNat % 4 = 0) (hlen : d.toNat + 24 < len - 12) {u : UInt32}
    (hu : u.toNat = len - 12 - d.toNat) :
    ∃ h' bs', Heap.plugHoles (Heap.lower (Heap.split { h with usedMem := h.usedMem - u } ptr
        (ptr + SIZEOF_STRUCT_MEM + d)) (ptr + SIZEOF_STRUCT_MEM + d)) (ptr + SIZEOF_STRUCT_MEM + d) = some h' ∧
      h'.Inv bs' ∧ Placed h h' ∧ Frame h.mem h'.mem bs' ∧
      spots 0 bs' = spots 0 xs ++ (extent xs, d.toNat + 12) :: spots (extent xs + len) ys := by
  have hl : Layout { h with usedMem := h.usedMem - u } (xs ++ ⟨len, true⟩ :: ys) := hi.layout.same rfl rfl rfl rfl
  have hlen4 : len % 4 = 0 := (hl.roomy ⟨len, true⟩ (by simp)).2
  have hspace := hl.space
  simp only [extent_append, extent] at hspace
  have hp2 : (ptr + SIZEOF_STRUCT_MEM + d).toNat = extent xs + (d.toNat + 12) := by
    have hone : (ptr + SIZEOF_STRUCT_MEM).toNat = ptr.toNat + 12 := by
      rw [UInt32.toNat_add]
      exact Nat.mod_eq_of_lt (by show ptr.toNat + 12 < _; omega)
    rw [UInt32.toNat_add, hone, Nat.mod_eq_of_lt (by omega)]
    omega
  obtain ⟨hl', hframe⟩ := hl.split hp hp2 (by omega) (by omega) (by show _ ≤ len; omega)
  obtain ⟨hs, hptr, hused, hmax, hlf⟩ := split_fields { h with usedMem := h.usedMem - u } ptr
    (ptr + SIZEOF_STRUCT_MEM + d)
  generalize Heap.split { h with usedMem := h.usedMem - u } ptr (ptr + SIZEOF_STRUCT_MEM + d) = h₁ at *
  generalize ptr + SIZEOF_STRUCT_MEM + d = ptr2 at hp2 ⊢
  have hcut : xs ++ ⟨d.toNat + 12, true⟩ :: ⟨len - (d.toNat + 12), false⟩ :: ys =
      (xs ++ [⟨d.toNat + 12, true⟩]) ++ ⟨len - (d.toNat + 12), false⟩ :: ys := by simp
  have hext : extent (xs ++ [⟨d.toNat + 12, true⟩]) = extent xs + (d.toNat + 12) := by simp [extent]
  have hpos : ∀ b ∈ xs, 0 < b.len := fun b hb =>
    Nat.lt_of_lt_of_le (by decide) (hi.layout.roomy b (List.mem_append_left _ hb)).1
  have hone : AllUsed [⟨d.toNat + 12, true⟩] := by simp [AllUsed]
  have hlower := firstFree_lower (l := len) (n := len - (d.toNat + 12)) [⟨d.toNat + 12, true⟩] ys hpos hone
    (by simp only [extent]; omega)
  obtain ⟨hxs, hys, -, -⟩ := coalesced_iff.1 hi.coalesced
  have hxs' : Coalesced (xs ++ [⟨d.toNat + 12, true⟩]) :=
    coalesced_iff.2 ⟨hxs, .nil, fun _ _ => Or.inr rfl, fun _ hc => by cases hc⟩
  have hsum : usedLen (xs ++ ⟨len, true⟩ :: ys) =
      usedLen ((xs ++ [⟨d.toNat + 12, true⟩]) ++ ⟨len - (d.toNat + 12), false⟩ :: ys) + u.toNat := by
    simp only [usedLen_append, usedLen]
    simp
    omega
  have husedMem : h₁.usedMem.toNat = h.usedMem.toNat - u.toNat := by
    rw [hused]
    exact UInt32.toNat_sub_of_le _ _ (by rw [UInt32.le_iff_toNat_le, hi.used]; omega)
  rw [hcut] at hl' hframe
  obtain ⟨h', bs', hplug, hinv, hplace, hframe', hspots⟩ := release_spec hl' (hp2.trans hext.symm)
    (by rw [hlf, hlower, ← hi.lfree]) hxs' hys (by rw [husedMem, hi.used]; omega)
    (by rw [husedMem, hmax]; exact (Nat.sub_le _ _).trans hi.max)
  refine ⟨h', bs', hplug, hinv, ⟨hplace.heapPtr.trans hptr, hplace.memSizeAligned.trans hs⟩,
    (hframe.congr hspots).trans hframe', ?_⟩
  have hend : extent xs + (d.toNat + 12) + (len - (d.toNat + 12)) = extent xs + len := by omega
  rw [hspots]
  simp [spots_append, spots, hend]

/-- Bytes are copied from one used block to another. -/
theorem blit_resized {m : ℕ → UInt8} {q k d : ℕ} {C : List (ℕ × ℕ)} (hd : d + 12 ≤ k)
    (hapart : ∀ a l, (a, l) ∈ C → a + l ≤ q ∨ q + k ≤ a) (hm : ∀ i, 12 ≤ i → i < n → m (p + i) = h.mem (p + i))
    (hm' : ∀ a l, (a, l) ∈ C → ∀ i, 12 ≤ i → i < l → m (a + i) = h.mem (a + i)) {l : List UInt8}
    (hl : l = slice m (p + 12) (if n - 12 < d then n - 12 else d))
    (hmem : h'.mem = blit m (q + 12) l) : Resized h h' p n q d C := by
  refine ⟨fun i hi hin hid => ?_, fun a l' ha i hi hil => ?_⟩
  · have hlen : i - 12 < l.length := by
      rw [hl, slice_length]
      split_ifs <;> omega
    have hq : q + i = q + 12 + (i - 12) := by omega
    have hp : p + 12 + (i - 12) = p + i := by omega
    rw [hmem, hq, blit_add m (q + 12) hlen]
    simp only [hl]
    rw [slice_getElem, hp, hm i hi hin]
  · have hlen : l.length ≤ d := by
      rw [hl, slice_length]
      split_ifs <;> omega
    rw [hmem, blit_outside m (by have := hapart a l' ha; omega), hm' a l' ha i hi hil]

theorem Resized.frame {h'' : Heap} {q k d : ℕ} {C : List (ℕ × ℕ)} (hz : Resized h h' p n q d C) (hd : d + 12 ≤ k)
    (hf : Frame h'.mem h''.mem bs) (hs : (spots 0 bs).Perm ((q, k) :: C)) : Resized h h'' p n q d C := by
  refine ⟨fun i hi hin hid => ?_, fun a l ha i hi hil => ?_⟩
  · rw [hf q k (hs.mem_iff.2 List.mem_cons_self) i hi (by omega), hz.moved i hi hin hid]
  · rw [hf a l (hs.mem_iff.2 (List.mem_cons_of_mem _ ha)) i hi hil, hz.others a l ha i hi hil]

/-- What `rt_realloc` did with the block at `p`, for a multiple of four. -/
inductive Reallocated (h h' : Heap) (bs bs' : List Block) (p n : ℕ) (size r : UInt32) : Prop
  | refused (hsize : size ≠ 0) (hr : r = 0) (hh : h' = h) (hbs : bs' = bs)
      (hwhy : h.memSizeAligned < size ∨ Refused h bs size.toNat)
  | freed (hr : r = 0) (hsize : size = 0) (hs : (spots 0 bs).Perm ((p, n) :: spots 0 bs')) (hf : Frame h.mem h'.mem bs')
  | resized (q k : ℕ) (C : List (ℕ × ℕ)) (hsize : size ≠ 0) (hr : h.Addr r q)
      (hs : (spots 0 bs).Perm ((p, n) :: C)) (hs' : (spots 0 bs').Perm ((q, k) :: C)) (hk : size.toNat + 12 ≤ k)
      (hz : Resized h h' p n q size.toNat C)

theorem Heap.Addr.sub (ha : h.Addr r p) : (r - h.heapPtr).toNat = p + 12 := by
  have hr : r.toNat = h.heapPtr.toNat + p + 12 := ha
  rw [UInt32.toNat_sub_of_le _ _ (by rw [UInt32.le_iff_toNat_le]; omega)]
  omega

/-- A block is moved to where there is room for it. -/
theorem expand_spec {d size : UInt32} (hi : h.Inv bs) (hM : 12 ≤ h.memSizeAligned.toNat) (hs : (p, n) ∈ spots 0 bs)
    (hr : h.Addr r p) (hd : d.toNat % 4 = 0) (hzero : d ≠ 0) (hsize : size.toNat = n - 12) :
    ∃ h' r' bs', h.expand r size d = some (h', r') ∧ h'.Inv bs' ∧ Placed h h' ∧ Reallocated h h' bs bs' p n d r' := by
  unfold Heap.expand
  obtain ⟨h₁, r', bs₁, hcall, hinv₁, hplaced₁, hframe₁, hcases⟩ := rtMalloc_used hi hM d
  rw [hcall, Option.bind_some]
  rcases hcases with ⟨rfl, rfl, rfl, hwhy⟩ | ⟨q, k, hs₁, ha₁, hk⟩
  · exact ⟨h₁, 0, bs₁, rfl, hi, ⟨rfl, rfl⟩, .refused hzero rfl rfl rfl (Or.inr hwhy)⟩
  have hk' : d.toNat + 12 ≤ k := by
    have hlt := d.toNat_lt
    have := (demand_bounds d).2.2 (by omega)
    omega
  have hne : r' ≠ 0 := by
    rintro rfl
    have : (0 : UInt32).toNat = _ := ha₁
    rw [UInt32.toNat_zero] at this
    omega
  -- the other blocks
  have hC := List.perm_cons_erase hs
  generalize (spots 0 bs).erase (p, n) = C at hC
  have hs₁' : (spots 0 bs₁).Perm ((q, k) :: (p, n) :: C) := hs₁.trans (hC.cons _)
  have ha : Heap.Addr h₁ r' q := by
    rw [Heap.Addr, hplaced₁.heapPtr]
    exact ha₁
  have hr₁ : Heap.Addr h₁ r p := by
    rw [Heap.Addr, hplaced₁.heapPtr]
    exact hr
  generalize hl : slice h₁.mem (p + 12) (if n - 12 < d.toNat then n - 12 else d.toNat) = l
  have hlen : l.length ≤ d.toNat := by
    rw [← hl, slice_length]
    split_ifs <;> omega
  have hinv₂ := hinv₁.write (l := l) (hs₁'.mem_iff.2 List.mem_cons_self) (Nat.le_refl 12) (by omega)
  obtain ⟨h', bs', hfree, hinv', hplaced', hframe', hs'⟩ := rtFree_used hinv₂
    (hs₁'.mem_iff.2 (List.mem_cons_of_mem _ List.mem_cons_self)) hr₁
  have hs'' : (spots 0 bs').Perm ((q, k) :: C) :=
    List.Perm.cons_inv (hs'.symm.trans (hs₁'.trans (List.Perm.swap _ _ _)))
  have hcopy : (if size < d then size else d).toNat = if n - 12 < d.toNat then n - 12 else d.toNat := by
    simp only [UInt32.lt_iff_toNat_lt, hsize]
    split_ifs
    · exact hsize
    · rfl
  refine ⟨h', r', bs', ?_, hinv', ⟨hplaced'.heapPtr.trans hplaced₁.heapPtr,
    hplaced'.memSizeAligned.trans hplaced₁.memSizeAligned⟩, .resized q k C hzero ha₁ hC hs'' hk' ?_⟩
  · simp only [if_pos hne, hr₁.sub, ha.sub, hcopy, hl, hfree, Option.map_some]
  · have hz : Resized h { h₁ with mem := blit h₁.mem (q + 12) l } p n q d.toNat C := by
      refine blit_resized hk' (fun a m hmem => ?_) (hframe₁ p n hs)
        (fun a m hmem => hframe₁ a m (hC.mem_iff.2 (List.mem_cons_of_mem _ hmem))) hl.symm rfl
      exact ((List.pairwise_cons.1 (spots_disjoint hs₁')).1 (a, m) (List.mem_cons_of_mem _ hmem)).symm
    exact hz.frame hk' hframe' hs''

/-- **`rt_realloc`** of a used block. -/
theorem rtRealloc_used (hi : h.Inv bs) (hM : 12 ≤ h.memSizeAligned.toNat) (hs : (p, n) ∈ spots 0 bs)
    (hr : h.Addr r p) (size : UInt32) : ∃ h' r' bs', h.rtRealloc r size = some (h', r') ∧ h'.Inv bs' ∧ Placed h h' ∧
      Reallocated h h' bs bs' p n (rtAlign size RT_ALIGN_SIZE) r' := by
  have hd : (rtAlign size RT_ALIGN_SIZE).toNat % 4 = 0 := by
    rw [rtAlign_toNat]
    omega
  unfold Heap.rtRealloc
  generalize rtAlign size RT_ALIGN_SIZE = d at hd
  by_cases hbig : d > h.memSizeAligned
  · have hzero : d ≠ 0 := by
      rintro rfl
      exact UInt32.not_lt_zero hbig
    exact ⟨h, 0, bs, if_pos hbig, hi, ⟨rfl, rfl⟩, .refused hzero rfl rfl rfl (Or.inl hbig)⟩
  by_cases hzero : d = 0
  · obtain ⟨h', bs', hfree, hinv, hplaced, hframe, hs'⟩ := rtFree_used hi hs hr
    refine ⟨h', 0, bs', ?_, hinv, hplaced, .freed rfl hzero hs' hframe⟩
    simp only [if_neg hbig, if_pos hzero, hfree, Option.map_some]
  have hd4 : 4 ≤ d.toNat := by
    have : d.toNat ≠ 0 := fun he => hzero (UInt32.toNat_inj.1 he)
    omega
  obtain ⟨xs, ⟨len, u⟩, ys, rfl, hu, rfl, rfl⟩ := mem_spots.1 hs
  obtain rfl : u = true := hu
  rw [Nat.zero_add] at *
  obtain ⟨hnull, hlegal, hptr, hsize⟩ := hi.layout.realloc_addr hr
  simp only [if_neg hbig, if_neg hzero, if_neg hnull, if_neg hlegal]
  have hC : (spots 0 (xs ++ ⟨n, true⟩ :: ys)).Perm ((extent xs, n) :: (spots 0 xs ++ spots (extent xs + n) ys)) := by
    rw [spots_append, spots, Nat.zero_add]
    exact List.perm_middle
  have hn : 16 ≤ n := (hi.layout.roomy ⟨n, true⟩ (by simp)).1
  generalize hblock : r - SIZEOF_STRUCT_MEM - h.heapPtr = ptr at hptr hsize ⊢
  generalize hsz : (h.header ptr).next - ptr - SIZEOF_STRUCT_MEM = sz at hsize ⊢
  by_cases hsame : sz = d
  · refine ⟨h, r, _, if_pos hsame, hi, ⟨rfl, rfl⟩, .resized _ n _ hzero hr hC hC ?_ (.refl h _ _ _ _)⟩
    rw [← hsame, hsize]
    show n - 12 + 12 ≤ n
    omega
  by_cases hshrink : d + SIZEOF_STRUCT_MEM + MIN_SIZE < sz
  · have hlarge : d.toNat + 24 < n - 12 := by
      have hroom := hi.layout.space
      have htotal := hi.layout.size
      rw [gt_iff_lt, UInt32.lt_iff_toNat_lt] at hbig
      have hsum : (d + SIZEOF_STRUCT_MEM + MIN_SIZE).toNat = d.toNat + 24 := by
        have hone : (d + SIZEOF_STRUCT_MEM).toNat = d.toNat + 12 := by
          rw [UInt32.toNat_add]
          exact Nat.mod_eq_of_lt (by show d.toNat + 12 < _; omega)
        rw [UInt32.toNat_add, hone]
        exact Nat.mod_eq_of_lt (by show d.toNat + 12 + 12 < _; omega)
      rw [UInt32.lt_iff_toNat_lt, hsum, hsize] at hshrink
      exact hshrink
    have hu : (sz - d).toNat = n - 12 - d.toNat := by
      have hsz : sz.toNat = n - 12 := hsize
      rw [UInt32.toNat_sub_of_le _ _ (by rw [UInt32.le_iff_toNat_le]; omega), hsz]
    obtain ⟨h', bs', hplug, hinv, hplaced, hframe, hspots⟩ := shrink_spec hi hptr hd4 hd hlarge hu
    have hs' : (spots 0 bs').Perm ((extent xs, d.toNat + 12) :: (spots 0 xs ++ spots (extent xs + n) ys)) := by
      rw [hspots]
      exact List.perm_middle
    refine ⟨h', r, bs', ?_, hinv, hplaced, .resized _ (d.toNat + 12) _ hzero hr hC hs' (Nat.le_refl _) ⟨?_, ?_⟩⟩
    · rw [if_neg hsame, if_pos hshrink, hplug, Option.map_some]
    · exact fun i hi _ hid => hframe _ _ (hs'.mem_iff.2 List.mem_cons_self) i hi hid
    · exact fun a l ha i hi hil => hframe a l (hs'.mem_iff.2 (List.mem_cons_of_mem _ ha)) i hi hil
  · rw [if_neg hsame, if_neg hshrink]
    exact expand_spec hi hM hs hr hd hzero hsize

end DataRecorder.Kernel
