/-
  Programs that use the heap.

  A program calls the functions of `mem.c` and writes into the blocks it was given;
  `live` says which those are, and what it knows of the bytes in them.  As long as it
  keeps to its blocks, no call fails an assertion or hangs, and the blocks are its own.

  * `Owned`: the blocks of the program are the used blocks of the heap;
  * `step_owned`: every call keeps this;
  * `heap_runs`: what the program can rely on;
  * `malloc_first_fit`: which block it gets.
-/
import DataRecorder.Base.System
import DataRecorder.Kernel.HeapRealloc

namespace DataRecorder.Kernel

open Base

/-- The blocks of the program, by their addresses; `none` is a byte that it does not know. -/
abbrev Live := UInt32 → Option (List (Option UInt8))

structure Client where
  heap : Heap
  live : Live

inductive HeapAct where
  | malloc (size : UInt32)
  | calloc (count size : UInt32)
  | realloc (rmem newsize : UInt32)
  | free (rmem : UInt32)
  | write (rmem : UInt32) (o : ℕ) (bytes : List UInt8)

/-- A block with the bytes `l`, unless there was no memory. -/
def Live.add (live : Live) (r : UInt32) (l : List (Option UInt8)) : Live :=
  if r = 0 then live else Function.update live r (some l)

/-- As many bytes as there is room for. -/
def resize (l : List (Option UInt8)) (n : ℕ) : List (Option UInt8) := l.take n ++ List.replicate (n - l.length) none

/-- `l` with `bytes` from the position `o` on. -/
def overwrite (l : List (Option UInt8)) (o : ℕ) (bytes : List UInt8) : List (Option UInt8) :=
  l.take o ++ bytes.map some ++ l.drop (o + bytes.length)

def Live.realloc (live : Live) (rmem newsize r : UInt32) : Live :=
  if newsize = 0 then Function.update live rmem none
  else if r = 0 then live
  else Function.update (Function.update live rmem none) r (some (resize ((live rmem).getD []) newsize.toNat))

namespace Client

def step : HeapAct → Client → Option Client
  | .malloc size, c => (c.heap.rtMalloc size).map fun p => ⟨p.1, c.live.add p.2 (List.replicate size.toNat none)⟩
  | .calloc count size, c =>
    (c.heap.rtCalloc count size).map fun p => ⟨p.1, c.live.add p.2 (List.replicate (count * size).toNat (some 0))⟩
  | .realloc rmem newsize, c =>
    (c.heap.rtRealloc rmem newsize).map fun p => ⟨p.1, c.live.realloc rmem newsize p.2⟩
  | .free rmem, c => (c.heap.rtFree rmem).map fun h => ⟨h, Function.update c.live rmem none⟩
  | .write rmem o bytes, c =>
    some ⟨{ c.heap with mem := blit c.heap.mem ((rmem - c.heap.heapPtr).toNat + o) bytes },
      Function.update c.live rmem ((c.live rmem).map fun l => overwrite l o bytes)⟩

/-- The program keeps to its blocks, and asks for no more than `RT_ALIGN` can round up. -/
def Allowed (c : Client) : HeapAct → Prop
  | .malloc size => size.toNat ≤ 4294967292
  | .calloc count size => count.toNat * size.toNat ≤ 4294967292
  | .realloc rmem newsize => newsize.toNat ≤ 4294967292 ∧ (rmem = 0 ∨ (c.live rmem).isSome)
  | .free rmem => rmem = 0 ∨ (c.live rmem).isSome
  | .write rmem o bytes => ∃ l ∈ c.live rmem, o + bytes.length ≤ l.length

instance (c : Client) : ∀ act, Decidable (c.Allowed act)
  | .malloc size => inferInstanceAs (Decidable (size.toNat ≤ 4294967292))
  | .calloc count size => inferInstanceAs (Decidable (count.toNat * size.toNat ≤ 4294967292))
  | .realloc rmem newsize =>
    inferInstanceAs (Decidable (newsize.toNat ≤ 4294967292 ∧ (rmem = 0 ∨ (c.live rmem).isSome)))
  | .free rmem => inferInstanceAs (Decidable (rmem = 0 ∨ (c.live rmem).isSome))
  | .write rmem o bytes => inferInstanceAs (Decidable (∃ l ∈ c.live rmem, o + bytes.length ≤ l.length))

end Client

/-! ## The blocks of the program -/

/-- The bytes from `a` on are as the program knows. -/
def Known (m : ℕ → UInt8) (a : ℕ) (l : List (Option UInt8)) : Prop :=
  ∀ (i : ℕ) (b : UInt8), l[i]? = some (some b) → m (a + i) = b

/-- The used blocks `C` are those of the program. -/
structure Owned (h : Heap) (C : List (ℕ × ℕ)) (live : Live) : Prop where
  block : ∀ r l, live r = some l → ∃ p k, (p, k) ∈ C ∧ h.Addr r p ∧ l.length + 12 ≤ k ∧ Known h.mem (p + 12) l
  owner : ∀ p k, (p, k) ∈ C → ∃ r, (live r).isSome ∧ h.Addr r p

variable {h h' : Heap} {C C' : List (ℕ × ℕ)} {live : Live} {p k : ℕ} {r : UInt32} {l : List (Option UInt8)}

theorem Heap.Addr.inj {r' : UInt32} (ha : h.Addr r p) (ha' : h.Addr r' p) : r = r' :=
  UInt32.toNat_inj.1 (Eq.trans ha (Eq.symm ha'))

theorem Heap.Addr.pos_inj {q : ℕ} (ha : h.Addr r p) (hb : h.Addr r q) : p = q := by
  have hp : r.toNat = h.heapPtr.toNat + p + 12 := ha
  have hq : r.toNat = h.heapPtr.toNat + q + 12 := hb
  omega

/-- The blocks of the program stay where they are, with what is in them. -/
theorem Owned.frame (ho : Owned h C live) (hptr : h'.heapPtr = h.heapPtr)
    (hm : ∀ p k, (p, k) ∈ C → ∀ i, 12 ≤ i → i < k → h'.mem (p + i) = h.mem (p + i)) : Owned h' C live := by
  have haddr {r : UInt32} {p : ℕ} (ha : h.Addr r p) : h'.Addr r p := by
    rw [Heap.Addr, hptr]
    exact ha
  refine ⟨fun r l hr => ?_, fun p k hp => ?_⟩
  · obtain ⟨p, k, hC, ha, hk, hknown⟩ := ho.block r l hr
    refine ⟨p, k, hC, haddr ha, hk, fun i b hb => ?_⟩
    have hi : i < l.length := (List.getElem?_eq_some_iff.1 hb).1
    rw [← hknown i b hb, Nat.add_assoc]
    exact hm p k hC (12 + i) (Nat.le_add_right 12 i) (by omega)
  · obtain ⟨r, hr, ha⟩ := ho.owner p k hp
    exact ⟨r, hr, haddr ha⟩

theorem Owned.perm (ho : Owned h C live) (hC : C.Perm C') : Owned h C' live :=
  ⟨fun r l hr => by
    obtain ⟨p, k, hp, hrest⟩ := ho.block r l hr
    exact ⟨p, k, hC.mem_iff.1 hp, hrest⟩, fun p k hp => ho.owner p k (hC.mem_iff.2 hp)⟩

/-- The program gives up a block. -/
theorem Owned.drop (ho : Owned h ((p, k) :: C) live) (ha : h.Addr r p) (hne : ∀ q m, (q, m) ∈ C → q ≠ p) :
    Owned h C (Function.update live r none) := by
  refine ⟨fun r' l hr' => ?_, fun q m hq => ?_⟩
  · have hrr : r' ≠ r := by
      rintro rfl
      simp at hr'
    rw [Function.update_of_ne hrr] at hr'
    obtain ⟨q, m, hq, ha', hrest⟩ := ho.block r' l hr'
    rcases List.mem_cons.1 hq with he | hq
    · obtain ⟨rfl, rfl⟩ := Prod.mk.inj he
      exact absurd (ha'.inj ha) hrr
    · exact ⟨q, m, hq, ha', hrest⟩
  · obtain ⟨r', hr', ha'⟩ := ho.owner q m (List.mem_cons_of_mem _ hq)
    have hrr : r' ≠ r := by
      rintro rfl
      exact hne q m hq (ha'.pos_inj ha)
    exact ⟨r', by rwa [Function.update_of_ne hrr], ha'⟩

/-- The program is given a block. -/
theorem Owned.add (ho : Owned h C live) (ha : h.Addr r p) (hk : l.length + 12 ≤ k) (hl : Known h.mem (p + 12) l) :
    Owned h ((p, k) :: C) (Function.update live r (some l)) := by
  refine ⟨fun r' l' hr' => ?_, fun q m hq => ?_⟩
  · by_cases hrr : r' = r
    · subst hrr
      rw [Function.update_self, Option.some.injEq] at hr'
      subst hr'
      exact ⟨p, k, List.mem_cons_self, ha, hk, hl⟩
    · rw [Function.update_of_ne hrr] at hr'
      obtain ⟨q, m, hq, hrest⟩ := ho.block r' l' hr'
      exact ⟨q, m, List.mem_cons_of_mem _ hq, hrest⟩
  · rcases List.mem_cons.1 hq with he | hq
    · obtain ⟨rfl, rfl⟩ := Prod.mk.inj he
      exact ⟨r, by simp, ha⟩
    · obtain ⟨r', hr', ha'⟩ := ho.owner q m hq
      by_cases hrr : r' = r
      · exact ⟨r, by simp, hrr ▸ ha'⟩
      · exact ⟨r', by rwa [Function.update_of_ne hrr], ha'⟩

theorem Owned.null (ho : Owned h C live) : live 0 = none := by
  by_contra hne
  obtain ⟨l, hl⟩ := Option.ne_none_iff_exists'.1 hne
  obtain ⟨p, k, -, ha, -⟩ := ho.block 0 l hl
  have : (0 : UInt32).toNat = h.heapPtr.toNat + p + 12 := ha
  rw [UInt32.toNat_zero] at this
  omega

theorem Owned.update_null (ho : Owned h C live) : Function.update live 0 none = live := by
  rw [← ho.null, Function.update_eq_self]

theorem Heap.Addr.ne_zero (ha : h.Addr r p) : r ≠ 0 := by
  rintro rfl
  have : (0 : UInt32).toNat = h.heapPtr.toNat + p + 12 := ha
  rw [UInt32.toNat_zero] at this
  omega

/-- No used block begins where another does. -/
theorem spots_apart_start {bs : List Block} {n : ℕ} (hb : Roomy bs) (hs : (spots 0 bs).Perm ((p, n) :: C)) :
    ∀ q m, (q, m) ∈ C → q ≠ p := by
  rintro q m hq rfl
  have hlong {a k : ℕ} (ha : (a, k) ∈ spots 0 bs) : 16 ≤ k := by
    obtain ⟨xs, b, ys, rfl, -, -, rfl⟩ := mem_spots.1 ha
    exact (hb b (by simp)).1
  have hn := hlong (hs.mem_iff.2 List.mem_cons_self)
  have hm := hlong (hs.mem_iff.2 (List.mem_cons_of_mem _ hq))
  have hapart := (List.pairwise_cons.1 (spots_disjoint hs)).1 (q, m) hq
  simp only at hapart
  omega

theorem known_unknown (m : ℕ → UInt8) (a n : ℕ) : Known m a (List.replicate n none) := by
  intro i b hb
  rw [List.getElem?_replicate] at hb
  split_ifs at hb
  simp at hb

theorem overwrite_length {o : ℕ} {bytes : List UInt8} (ho : o + bytes.length ≤ l.length) :
    (overwrite l o bytes).length = l.length := by
  simp [overwrite]
  omega

theorem known_overwrite {m : ℕ → UInt8} {a o : ℕ} {bytes : List UInt8} (hl : Known m a l)
    (ho : o + bytes.length ≤ l.length) : Known (blit m (a + o) bytes) a (overwrite l o bytes) := by
  intro i b hb
  have hfirst : (l.take o).length = o := by simp; omega
  rw [overwrite, List.append_assoc] at hb
  rcases Nat.lt_or_ge i o with hi | hi
  · rw [List.getElem?_append_left (by omega), List.getElem?_take_of_lt hi] at hb
    rw [blit_of_lt m bytes (by omega)]
    exact hl i b hb
  rw [List.getElem?_append_right (by omega), hfirst] at hb
  rcases Nat.lt_or_ge (i - o) bytes.length with hib | hib
  · have hpos : a + i = a + o + (i - o) := by omega
    rw [List.getElem?_append_left (by simpa using hib), List.getElem?_map, List.getElem?_eq_getElem hib] at hb
    rw [hpos, blit_add m (a + o) hib]
    simpa using hb
  · rw [List.getElem?_append_right (by simpa using hib), List.getElem?_drop, List.length_map] at hb
    rw [blit_of_ge m (by omega)]
    have hpos : o + bytes.length + (i - o - bytes.length) = i := by omega
    rw [hpos] at hb
    exact hl i b hb

/-! ## The calls -/

/-- Between the calls. -/
structure Client.Good (h₀ : Heap) (c : Client) (bs : List Block) : Prop where
  placed : Placed h₀ c.heap
  inv : c.heap.Inv bs
  owned : Owned c.heap (spots 0 bs) c.live

variable {h₀ : Heap} {c : Client} {bs : List Block}

/-- The program writes into one of its blocks. -/
theorem Client.Good.write {o : ℕ} {bytes : List UInt8} (hg : c.Good h₀ bs) (hr : c.live r = some l)
    (ho : o + bytes.length ≤ l.length) :
    Client.Good h₀ ⟨{ c.heap with mem := blit c.heap.mem ((r - c.heap.heapPtr).toNat + o) bytes },
      Function.update c.live r (some (overwrite l o bytes))⟩ bs := by
  obtain ⟨p, k, hp, ha, hk, hl⟩ := hg.owned.block r l hr
  have hs := List.perm_cons_erase hp
  generalize (spots 0 bs).erase (p, k) = C at hs
  have hapart := (List.pairwise_cons.1 (spots_disjoint hs)).1
  have hdrop := (hg.owned.perm hs).drop ha (spots_apart_start hg.inv.layout.roomy hs)
  rw [ha.sub]
  refine ⟨hg.placed.trans ⟨rfl, rfl⟩, ?_, ?_⟩
  · rw [Nat.add_assoc]
    exact hg.inv.write hp (Nat.le_add_right 12 o) (by omega)
  · have hframe : Owned { c.heap with mem := blit c.heap.mem (p + 12 + o) bytes } C
      (Function.update c.live r none) := by
      refine hdrop.frame rfl fun q m hq i hi hil => blit_outside c.heap.mem ?_
      have := hapart (q, m) hq
      simp only at this
      omega
    have hk' : (overwrite l o bytes).length + 12 ≤ k := by rwa [overwrite_length ho]
    have hadd := (hframe.add ha hk' (known_overwrite hl ho)).perm hs.symm
    rwa [Function.update_idem] at hadd

theorem good_malloc (hg : c.Good h₀ bs) (hM : 12 ≤ h₀.memSizeAligned.toNat) {size : UInt32} {n : ℕ}
    (hsize : size.toNat ≤ 4294967292) (hn : n ≤ size.toNat) : ∃ h r bs', c.heap.rtMalloc size = some (h, r) ∧
      Client.Good h₀ ⟨h, c.live.add r (List.replicate n none)⟩ bs' ∧ (r = 0 ∨ ∃ p, h.Addr r p) := by
  obtain ⟨h, r, bs', hcall, hinv, hplaced, hframe, hr⟩ := rtMalloc_used hg.inv (by rwa [hg.placed.memSizeAligned]) size
  rcases hr with ⟨rfl, rfl, rfl, -⟩ | ⟨p, k, hs, ha, hk⟩
  · exact ⟨c.heap, 0, bs', hcall, hg, Or.inl rfl⟩
  have hle := (demand_bounds size).2.2 hsize
  have ha' : h.Addr r p := by
    rw [Heap.Addr, hplaced.heapPtr]
    exact ha
  have hold : Owned h (spots 0 bs) c.live := hg.owned.frame hplaced.heapPtr hframe
  refine ⟨h, r, bs', hcall, ⟨hg.placed.trans hplaced, hinv, ?_⟩, Or.inr ⟨p, ha'⟩⟩
  rw [Live.add, if_neg ha.ne_zero]
  refine Owned.perm (hold.add ha' ?_ (known_unknown _ _ _)) hs.symm
  rw [List.length_replicate]
  omega

theorem good_calloc (hg : c.Good h₀ bs) (hM : 12 ≤ h₀.memSizeAligned.toNat) {count size : UInt32}
    (hsize : count.toNat * size.toNat ≤ 4294967292) : ∃ h r bs', c.heap.rtCalloc count size = some (h, r) ∧
      Client.Good h₀ ⟨h, c.live.add r (List.replicate (count * size).toNat (some 0))⟩ bs' := by
  have htotal : (count * size).toNat = count.toNat * size.toNat := by
    rw [UInt32.toNat_mul]
    exact Nat.mod_eq_of_lt (by omega)
  have hfits : (count * size).toNat ≤ 4294967292 := by omega
  obtain ⟨h, r, bs', hcall, hg', hr⟩ := good_malloc hg hM hfits (Nat.le_refl _)
  unfold Heap.rtCalloc
  rw [hcall, Option.map_some]
  rcases hr with rfl | ⟨p, ha⟩
  · exact ⟨h, 0, bs', rfl, hg'⟩
  simp only [if_pos ha.ne_zero, ha.sub]
  generalize (count * size).toNat = n at *
  have hlive : c.live.add r (List.replicate n (some 0)) = Function.update (c.live.add r (List.replicate n none)) r
      (some (overwrite (List.replicate n none) 0 (List.replicate n 0))) := by
    simp [Live.add, ha.ne_zero, overwrite]
  have hblock : c.live.add r (List.replicate n none) r = some (List.replicate n none) := by
    simp [Live.add, ha.ne_zero]
  have hfit : 0 + (List.replicate n (0 : UInt8)).length ≤ (List.replicate n (none : Option UInt8)).length := by simp
  have hw := hg'.write hblock hfit
  refine ⟨_, r, bs', rfl, ?_⟩
  rw [hlive]
  rw [ha.sub] at hw
  exact hw

theorem good_free (hg : c.Good h₀ bs) (hr : r = 0 ∨ (c.live r).isSome) : ∃ h bs', c.heap.rtFree r = some h ∧
    Client.Good h₀ ⟨h, Function.update c.live r none⟩ bs' := by
  rcases hr with rfl | hr
  · refine ⟨c.heap, bs, rfl, hg.placed, hg.inv, ?_⟩
    rw [hg.owned.update_null]
    exact hg.owned
  obtain ⟨l, hl⟩ := Option.isSome_iff_exists.1 hr
  obtain ⟨p, k, hp, ha, -⟩ := hg.owned.block r l hl
  obtain ⟨h, bs', hcall, hinv, hplaced, hframe, hs⟩ := rtFree_used hg.inv hp ha
  have hdrop := (hg.owned.perm hs).drop ha (spots_apart_start hg.inv.layout.roomy hs)
  exact ⟨h, bs', hcall, hg.placed.trans hplaced, hinv, hdrop.frame hplaced.heapPtr hframe⟩

theorem resize_length (l : List (Option UInt8)) (n : ℕ) : (resize l n).length = n := by
  simp [resize]
  omega

theorem resize_getElem {n i : ℕ} {b : UInt8} (h : (resize l n)[i]? = some (some b)) :
    i < n ∧ l[i]? = some (some b) := by
  have hi : i < n := by
    rw [← resize_length l n]
    exact (List.getElem?_eq_some_iff.1 h).1
  refine ⟨hi, ?_⟩
  rw [resize] at h
  rcases Nat.lt_or_ge i (l.take n).length with hlt | hge
  · rwa [List.getElem?_append_left hlt, List.getElem?_take_of_lt hi] at h
  · rw [List.getElem?_append_right hge, List.getElem?_replicate] at h
    split_ifs at h
    simp at h

/-- `RT_ALIGN` does not wrap around. -/
theorem align_bounds {n : UInt32} (hn : n.toNat ≤ 4294967292) :
    n.toNat ≤ (rtAlign n RT_ALIGN_SIZE).toNat ∧ (rtAlign n RT_ALIGN_SIZE).toNat ≤ 4294967292 ∧
      (rtAlign n RT_ALIGN_SIZE = 0 ↔ n = 0) := by
  have halign := rtAlign_eq hn
  refine ⟨by omega, by omega, ?_, ?_⟩
  · intro he
    rw [he, UInt32.toNat_zero] at halign
    exact UInt32.toNat_inj.1 (by rw [UInt32.toNat_zero]; omega)
  · rintro rfl
    decide

/-- A null pointer is given back as a new block. -/
theorem good_realloc_null (hg : c.Good h₀ bs) (hM : 12 ≤ h₀.memSizeAligned.toNat) {n : UInt32}
    (hn : n.toNat ≤ 4294967292) :
    ∃ h r bs', c.heap.rtRealloc 0 n = some (h, r) ∧ Client.Good h₀ ⟨h, c.live.realloc 0 n r⟩ bs' := by
  obtain ⟨hle, hmax, hzero⟩ := align_bounds hn
  unfold Heap.rtRealloc
  by_cases hbig : rtAlign n RT_ALIGN_SIZE > c.heap.memSizeAligned
  · have hne : n ≠ 0 := by
      rintro rfl
      exact UInt32.not_lt_zero hbig
    refine ⟨c.heap, 0, bs, if_pos hbig, ?_⟩
    rw [Live.realloc, if_neg hne, if_pos rfl]
    exact hg
  by_cases hd : rtAlign n RT_ALIGN_SIZE = 0
  · refine ⟨c.heap, 0, bs, by simp only [if_neg hbig, if_pos hd]; rfl, hg.placed, hg.inv, ?_⟩
    rw [Live.realloc, if_pos (hzero.1 hd), hg.owned.update_null]
    exact hg.owned
  · have hne : n ≠ 0 := fun h => hd (hzero.2 h)
    obtain ⟨h, r, bs', hcall, hg', -⟩ := good_malloc hg hM hmax hle
    refine ⟨h, r, bs', ?_, hg'.placed, hg'.inv, ?_⟩
    · simp only [if_neg hbig, if_neg hd, if_true]
      exact hcall
    · rw [Live.realloc, if_neg hne]
      split_ifs with hr
      · rw [Live.add, if_pos hr] at hg'
        exact hg'.owned
      · rw [Live.add, if_neg hr] at hg'
        rw [hg.owned.null, hg.owned.update_null]
        simpa [resize] using hg'.owned

theorem good_realloc (hg : c.Good h₀ bs) (hM : 12 ≤ h₀.memSizeAligned.toNat) {n : UInt32} (hn : n.toNat ≤ 4294967292)
    (hr : (c.live r).isSome) :
    ∃ h r' bs', c.heap.rtRealloc r n = some (h, r') ∧ Client.Good h₀ ⟨h, c.live.realloc r n r'⟩ bs' := by
  obtain ⟨hle, -, hzero⟩ := align_bounds hn
  obtain ⟨l, hl⟩ := Option.isSome_iff_exists.1 hr
  obtain ⟨p, k, hp, ha, hk, hknown⟩ := hg.owned.block r l hl
  obtain ⟨h, r', bs', hcall, hinv, hplaced, hcase⟩ := rtRealloc_used hg.inv (by rwa [hg.placed.memSizeAligned]) hp ha n
  refine ⟨h, r', bs', hcall, hg.placed.trans hplaced, hinv, ?_⟩
  unfold Live.realloc
  cases hcase with
  | refused hsize hr' hh hbs =>
    subst hr' hh hbs
    rw [if_neg (fun h => hsize (hzero.2 h)), if_pos rfl]
    exact hg.owned
  | freed _ hsize hs hf =>
    rw [if_pos (hzero.1 hsize)]
    exact ((hg.owned.perm hs).drop ha (spots_apart_start hg.inv.layout.roomy hs)).frame hplaced.heapPtr hf
  | resized q m C hsize ha' hs hs' hm hz =>
    have haq : h.Addr r' q := by
      rw [Heap.Addr, hplaced.heapPtr]
      exact ha'
    rw [if_neg (fun h => hsize (hzero.2 h)), if_neg ha'.ne_zero, hl, Option.getD_some]
    have hdrop :=
      ((hg.owned.perm hs).drop ha (spots_apart_start hg.inv.layout.roomy hs)).frame hplaced.heapPtr hz.others
    refine (hdrop.add haq (by rw [resize_length]; omega) fun i b hb => ?_).perm hs'.symm
    obtain ⟨hi, hb⟩ := resize_getElem hb
    have hil : i < l.length := (List.getElem?_eq_some_iff.1 hb).1
    rw [Nat.add_assoc, hz.moved (12 + i) (Nat.le_add_right 12 i) (by omega) (by omega), ← Nat.add_assoc]
    exact hknown i b hb

/-! ## Runs -/

/-- **One call** of a program that keeps to its blocks. -/
theorem step_good (hM : 12 ≤ h₀.memSizeAligned.toNat) {act : HeapAct} (hg : c.Good h₀ bs) (hact : c.Allowed act) :
    ∃ c' bs', Client.step act c = some c' ∧ c'.Good h₀ bs' := by
  cases act with
  | malloc size =>
    obtain ⟨h, r, bs', hcall, hg', -⟩ := good_malloc hg hM hact (Nat.le_refl _)
    exact ⟨_, bs', by rw [Client.step, hcall, Option.map_some], hg'⟩
  | calloc count size =>
    obtain ⟨h, r, bs', hcall, hg'⟩ := good_calloc hg hM hact
    exact ⟨_, bs', by rw [Client.step, hcall, Option.map_some], hg'⟩
  | realloc rmem newsize =>
    obtain ⟨hn, hr⟩ := hact
    obtain ⟨h, r', bs', hcall, hg'⟩ : ∃ h r' bs', c.heap.rtRealloc rmem newsize = some (h, r') ∧
        Client.Good h₀ ⟨h, c.live.realloc rmem newsize r'⟩ bs' := by
      rcases hr with rfl | hr
      · exact good_realloc_null hg hM hn
      · exact good_realloc hg hM hn hr
    exact ⟨_, bs', by rw [Client.step, hcall, Option.map_some], hg'⟩
  | free rmem =>
    obtain ⟨h, bs', hcall, hg'⟩ := good_free hg hact
    exact ⟨_, bs', by rw [Client.step, hcall, Option.map_some], hg'⟩
  | write rmem o bytes =>
    obtain ⟨l, hl, ho⟩ := hact
    have hl : c.live rmem = some l := hl
    exact ⟨_, bs, by rw [Client.step, hl, Option.map_some], hg.write hl ho⟩

/-- The heap is one free block when `rt_system_heap_init` is done. -/
theorem init_inv {mem : ℕ → UInt8} {beginAddr endAddr : UInt32}
    (hinit : Heap.rtSystemHeapInit mem beginAddr endAddr = some h) (hM : 4 ≤ h.memSizeAligned.toNat) :
    h.Inv [⟨h.memSizeAligned.toNat + 12, false⟩] := by
  have hbegin : (rtAlign beginAddr RT_ALIGN_SIZE).toNat % 4 = 0 := by
    rw [rtAlign_toNat]
    omega
  have hend : (rtAlignDown endAddr RT_ALIGN_SIZE).toNat % 4 = 0 := by
    rw [rtAlignDown_toNat]
    omega
  unfold Heap.rtSystemHeapInit at hinit
  generalize rtAlign beginAddr RT_ALIGN_SIZE = B at hbegin hinit
  generalize rtAlignDown endAddr RT_ALIGN_SIZE = E at hend hinit
  simp only [] at hinit
  split_ifs at hinit with hroom
  obtain ⟨hlarge, hafter⟩ := hroom
  have hE := E.toNat_lt
  -- what is left between the two headers
  have hdown : (E - 2 * SIZEOF_STRUCT_MEM).toNat = E.toNat - 24 :=
    UInt32.toNat_sub_of_le _ _ (UInt32.le_of_lt hlarge)
  rw [gt_iff_lt, UInt32.lt_iff_toNat_lt] at hlarge
  have hlarge : 24 < E.toNat := hlarge
  rw [ge_iff_le, UInt32.le_iff_toNat_le, hdown] at hafter
  have hsize : (E - B - 2 * SIZEOF_STRUCT_MEM).toNat = E.toNat - B.toNat - 24 := by
    have hone : (E - B).toNat = E.toNat - B.toNat := UInt32.toNat_sub_of_le _ _ (by rw [UInt32.le_iff_toNat_le]; omega)
    rw [UInt32.toNat_sub_of_le _ _ (by rw [UInt32.le_iff_toNat_le, hone]; show 24 ≤ _; omega), hone]
    rfl
  generalize E - B - 2 * SIZEOF_STRUCT_MEM = size at hinit hsize
  have hstop : (size + SIZEOF_STRUCT_MEM).toNat = size.toNat + 12 := by
    rw [UInt32.toNat_add]
    exact Nat.mod_eq_of_lt (by show size.toNat + 12 < _; omega)
  generalize size + SIZEOF_STRUCT_MEM = stop at hinit hstop
  generalize hfirst : Heap.set ⟨mem, B, stop, 0, size, 0, 0⟩ 0 ⟨HEAP_MAGIC, 0, stop, 0⟩ = h₁ at hinit
  have hfields : h₁.heapPtr = B ∧ h₁.heapEnd = stop ∧ h₁.lfree = 0 ∧ h₁.memSizeAligned = size ∧ h₁.usedMem = 0 := by
    rw [← hfirst]
    exact ⟨rfl, rfl, rfl, rfl, rfl⟩
  obtain ⟨hptr, hstop₁, hlf, hsize₁, hused⟩ := hfields
  rw [hstop₁, Option.some.injEq] at hinit
  subst hinit
  simp only [Heap.set_memSizeAligned, hsize₁] at hM ⊢
  have hzero : (0 : UInt32).toNat = 0 := UInt32.toNat_zero
  have hhead : hdr h₁.mem 0 = ⟨HEAP_MAGIC, 0, stop, 0⟩ := by
    rw [← hfirst]
    exact hdr_put
  refine ⟨⟨?_, ?_, ?_, ?_, ?_, ⟨?_, ?_, ?_, ?_⟩, ?_, ?_⟩, List.isChain_singleton _, ?_, ?_, ?_⟩
  · rw [Heap.set_memSizeAligned, hsize₁, extent, extent, Nat.add_zero]
  · rw [Heap.set_heapEnd, hstop₁, extent, extent, hstop, Nat.add_zero]
  · rw [Heap.set_heapPtr, hptr, extent, extent]
    show B.toNat + (size.toNat + 12 + 0) + 12 < 4294967296
    omega
  · rw [Heap.set_heapPtr, hptr]
    exact hbegin
  · intro b hb
    rw [List.mem_singleton.1 hb]
    exact ⟨by show 16 ≤ size.toNat + 12; omega, by show (size.toNat + 12) % 4 = 0; omega⟩
  · rw [mem_set, hdr_put_apart (by omega), hhead]
  · rw [mem_set, hdr_put_apart (by omega), hhead]
    rfl
  · rw [mem_set, hdr_put_apart (by omega), hhead]
    show stop.toNat = 0 + (size.toNat + 12)
    omega
  · rw [mem_set, hdr_put_apart (by omega), hhead]
    exact hzero
  · show (hdr _ (0 + (size.toNat + 12))).used = 1
    rw [mem_set, Nat.zero_add, ← hstop, hdr_put]
  · show (hdr _ (0 + (size.toNat + 12))).next.toNat = 0 + (size.toNat + 12)
    rw [mem_set, Nat.zero_add, ← hstop, hdr_put]
  · rw [Heap.set_lfree, hlf]
    rfl
  · rw [Heap.set_usedMem, hused]
    rfl
  · rw [Heap.set_usedMem, hused, hzero]
    exact Nat.zero_le _

/-- What a program can rely on. -/
structure Client.Sound (c : Client) : Prop where
  /-- Its blocks are aligned, and inside the heap. -/
  place : ∀ r l, c.live r = some l → r % RT_ALIGN_SIZE = 0 ∧ c.heap.heapPtr.toNat + SIZEOF_STRUCT_MEM.toNat ≤ r.toNat ∧
    r.toNat + l.length ≤ c.heap.heapPtr.toNat + c.heap.heapEnd.toNat
  /-- No two of them overlap. -/
  apart : ∀ r r' l l', c.live r = some l → c.live r' = some l' → r ≠ r' →
    r.toNat + l.length ≤ r'.toNat ∨ r'.toNat + l'.length ≤ r.toNat
  /-- They hold what was written into them. -/
  holds : ∀ r l, c.live r = some l → Known c.heap.mem (r - c.heap.heapPtr).toNat l
  /-- When all are given back, the heap is one free block again. -/
  restored : (∀ r, c.live r = none) → c.heap.header 0 = ⟨HEAP_MAGIC, 0, c.heap.heapEnd, 0⟩ ∧ c.heap.lfree = 0 ∧
    c.heap.usedMem = 0

/-- Blocks that are all free and do not meet are one. -/
theorem all_free (hc : Coalesced bs) (hu : ∀ b ∈ bs, b.used = false) (hne : bs ≠ []) : ∃ n, bs = [⟨n, false⟩] := by
  cases bs with
  | nil => exact absurd rfl hne
  | cons b bs =>
    obtain ⟨n, u⟩ := b
    obtain rfl : u = false := hu _ List.mem_cons_self
    cases bs with
    | nil => exact ⟨n, rfl⟩
    | cons b bs =>
      have hb := hu b (List.mem_cons_of_mem _ List.mem_cons_self)
      rcases (List.isChain_cons_cons.1 hc).1 with h | h
      · cases h
      · rw [hb] at h
        cases h

theorem Client.Good.sound (hg : c.Good h₀ bs) : c.Sound := by
  have hspace := hg.inv.layout.space
  have hstop := hg.inv.layout.stop
  refine ⟨fun r l hr => ?_, fun r r' l l' hr hr' hne => ?_, fun r l hr => ?_, fun hnone => ?_⟩
  · obtain ⟨p, k, hp, ha, hk, -⟩ := hg.owned.block r l hr
    have hbound := (spots_bounds hp).2
    obtain ⟨xs, ⟨len, u⟩, ys, rfl, hu, rfl, rfl⟩ := mem_spots.1 hp
    rw [Heap.Addr, Nat.zero_add] at ha
    obtain ⟨-, halign, -, -, -⟩ := hg.inv.layout.address ha
    refine ⟨halign, ?_, ?_⟩
    · show _ + 12 ≤ _
      omega
    · omega
  · obtain ⟨p, k, hp, ha, hk, -⟩ := hg.owned.block r l hr
    obtain ⟨q, m, hq, ha', hm, -⟩ := hg.owned.block r' l' hr'
    have hrp : r.toNat = c.heap.heapPtr.toNat + p + 12 := ha
    have hrq : r'.toNat = c.heap.heapPtr.toNat + q + 12 := ha'
    have hs := List.perm_cons_erase hp
    rcases List.mem_cons.1 (hs.mem_iff.1 hq) with he | hq
    · obtain ⟨rfl, rfl⟩ := Prod.mk.inj he
      exact absurd (ha.inj ha') hne
    · have hapart := (List.pairwise_cons.1 (spots_disjoint hs)).1 (q, m) hq
      simp only at hapart
      omega
  · obtain ⟨p, k, hp, ha, -, hl⟩ := hg.owned.block r l hr
    rwa [ha.sub]
  · have hspots : spots 0 bs = [] := by
      rw [List.eq_nil_iff_forall_not_mem]
      rintro ⟨p, k⟩ hp
      obtain ⟨r, hr, -⟩ := hg.owned.owner p k hp
      rw [hnone r] at hr
      cases hr
    have hsize := hg.inv.layout.size
    have hne : bs ≠ [] := by
      rintro rfl
      rw [extent] at hsize
      omega
    obtain ⟨n, rfl⟩ := all_free hg.inv.coalesced (spots_nil hspots) hne
    obtain ⟨hmagic, hused, hnext, hprev⟩ := hg.inv.layout.tail.1
    refine ⟨?_, UInt32.toNat_inj.1 hg.inv.lfree, UInt32.toNat_inj.1 hg.inv.used⟩
    have hend : (hdr c.heap.mem 0).next = c.heap.heapEnd := by
      apply UInt32.toNat_inj.1
      rw [hnext, hstop, extent, extent, Nat.zero_add, Nat.add_zero]
    have hzero : (hdr c.heap.mem 0).prev = 0 := UInt32.toNat_inj.1 hprev
    have hhead : c.heap.header 0 = hdr c.heap.mem 0 := rfl
    rw [hhead]
    cases hx : hdr c.heap.mem 0 with
    | mk magic used next prev =>
      rw [hx] at hmagic hused hend hzero
      simp only at hmagic hused hend hzero
      rw [hmagic, hused, hend, hzero]
      rfl

theorem good_init {mem : ℕ → UInt8} {beginAddr endAddr : UInt32}
    (hinit : Heap.rtSystemHeapInit mem beginAddr endAddr = some h₀) (hM : 12 ≤ h₀.memSizeAligned.toNat) :
    Client.Good h₀ ⟨h₀, fun _ => none⟩ [⟨h₀.memSizeAligned.toNat + 12, false⟩] := by
  refine ⟨⟨rfl, rfl⟩, init_inv hinit (Nat.le_trans (by decide) hM), fun r l hr => ?_, fun p k hp => ?_⟩
  · cases hr
  · cases hp

/-- **The heap.**  Whatever allowed calls a program makes and in whatever order, none of them fails an assertion or
hangs, its blocks do not overlap and hold what it wrote, and nothing of the heap is lost. -/
theorem heap_runs {mem : ℕ → UInt8} {beginAddr endAddr : UInt32} {acts : List HeapAct}
    (hinit : Heap.rtSystemHeapInit mem beginAddr endAddr = some h₀) (hM : 12 ≤ h₀.memSizeAligned.toNat)
    (hacts : Guarded Client.step Client.Allowed ⟨h₀, fun _ => none⟩ acts) :
    ∃ c, run Client.step acts ⟨h₀, fun _ => none⟩ = some c ∧ Placed h₀ c.heap ∧ c.Sound := by
  obtain ⟨c, hc, bs, hg⟩ := hacts.run_total (I := fun c => ∃ bs, c.Good h₀ bs) (fun c act ⟨bs, hg⟩ hact => by
    obtain ⟨c', bs', hs, hg'⟩ := step_good hM hg hact
    exact ⟨c', hs, bs', hg'⟩) ⟨_, good_init hinit hM⟩
  exact ⟨c, hc, hg.placed, hg.sound⟩

/-- Two blocks are taken, the first one is moved behind the second, and both are given back. -/
def moveOver : List HeapAct :=
  [.malloc 5, .calloc 2 10, .write 0x2000000c 1 [7, 8], .realloc 0x2000000c 30, .free 0x20000024, .free 0x20000044]

theorem heap_runs_moveOver : ∃ h₀ c, Heap.rtSystemHeapInit (fun _ => 0xff) 0x1ffffffd 0x20000103 = some h₀ ∧
    run Client.step moveOver ⟨h₀, fun _ => none⟩ = some c ∧ Placed h₀ c.heap ∧ c.Sound := by
  have hsome : ∃ h₀ ∈ Heap.rtSystemHeapInit (fun _ => 0xff) 0x1ffffffd 0x20000103, 12 ≤ h₀.memSizeAligned.toNat ∧
      Guarded Client.step Client.Allowed ⟨h₀, fun _ => none⟩ moveOver := by decide +kernel
  obtain ⟨h₀, hinit, hM, hacts⟩ := hsome
  obtain ⟨c, hc, hsound⟩ := heap_runs hinit hM hacts
  exact ⟨h₀, c, hinit, hc, hsound⟩

/-- **First fit.**  In whatever state a program left the heap, `rt_malloc` gives the first free block that is large
enough, and null only where there is none; but it does not see a block that the end of the heap exactly fits. -/
theorem malloc_first_fit {mem : ℕ → UInt8} {beginAddr endAddr : UInt32} {acts : List HeapAct}
    (hinit : Heap.rtSystemHeapInit mem beginAddr endAddr = some h₀) (hM : 12 ≤ h₀.memSizeAligned.toNat)
    (hacts : Guarded Client.step Client.Allowed ⟨h₀, fun _ => none⟩ acts)
    (hc : run Client.step acts ⟨h₀, fun _ => none⟩ = some c) (n : UInt32) :
    ∃ bs h r, c.heap.Inv bs ∧ c.heap.rtMalloc n = some (h, r) ∧ (r = 0 ↔ Refused c.heap bs n.toNat) ∧
      (r ≠ 0 → ∃ xs, FirstFit bs (room n.toNat) xs ∧ r.toNat = c.heap.heapPtr.toNat + extent xs + 12) := by
  obtain ⟨bs, hg⟩ := hacts.run_inv (I := fun c => ∃ bs, c.Good h₀ bs) (fun c act c' ⟨bs, hg⟩ hact hs => by
    obtain ⟨c'', bs', hs', hg'⟩ := step_good hM hg hact
    exact ⟨bs', Option.some.inj (hs'.symm.trans hs) ▸ hg'⟩) ⟨_, good_init hinit hM⟩ hc
  obtain ⟨h, r, bs', hcall, -, -, -, hr⟩ := rtMalloc_spec hg.inv (by rwa [hg.placed.memSizeAligned]) n
  refine ⟨bs, h, r, hg.inv, hcall, ?_⟩
  rcases hr with ⟨rfl, -, -, hrefused⟩ | ⟨hrefused, xs, hfirst, B, k, -, -, haddr, -⟩
  · exact ⟨iff_of_true rfl hrefused, fun h => absurd rfl h⟩
  · exact ⟨iff_of_false (Heap.Addr.ne_zero haddr) hrefused, fun _ => ⟨xs, hfirst, haddr⟩⟩

/-- A hole of twenty bytes, and thirty bytes behind it. -/
def hole : List HeapAct := [.malloc 20, .malloc 30, .free 0x2000000c]

/-- Forty bytes are found behind the two.  What is there is not found as a whole, since the end of the heap exactly
fits it. -/
theorem malloc_first_fit_hole : ∃ h₀ c h, Heap.rtSystemHeapInit (fun _ => 0) 0x20000000 0x20000100 = some h₀ ∧
    run Client.step hole ⟨h₀, fun _ => none⟩ = some c ∧ c.heap.rtMalloc 40 = some (h, 0x20000058) ∧
    (∃ bs xs, c.heap.Inv bs ∧ FirstFit bs 40 xs ∧ extent xs = 76) ∧ ∃ bs, c.heap.Inv bs ∧ Refused c.heap bs 156 := by
  have hsome : ∃ h₀ ∈ Heap.rtSystemHeapInit (fun _ => 0) 0x20000000 0x20000100, 12 ≤ h₀.memSizeAligned.toNat ∧
      Guarded Client.step Client.Allowed ⟨h₀, fun _ => none⟩ hole ∧ ∃ c ∈ run Client.step hole ⟨h₀, fun _ => none⟩,
        c.heap.heapPtr = 0x20000000 ∧ (c.heap.rtMalloc 40).map Prod.snd = some 0x20000058 ∧
        (c.heap.rtMalloc 156).map Prod.snd = some 0 := by decide +kernel
  obtain ⟨h₀, hinit, hM, hacts, c, hc, hptr, hgiven, hnull⟩ := hsome
  obtain ⟨bs, h, r, hinv, hcall, -, hfirst⟩ := malloc_first_fit hinit hM hacts hc 40
  obtain ⟨bs', h', r', hinv', hcall', hrefused, -⟩ := malloc_first_fit hinit hM hacts hc 156
  obtain rfl : r = 0x20000058 := by simpa [hcall] using hgiven
  obtain rfl : r' = 0 := by simpa [hcall'] using hnull
  obtain ⟨xs, hxs, hr⟩ := hfirst (by decide)
  have hextent : 536871000 = 536870912 + extent xs + 12 := by simpa [hptr] using hr
  exact ⟨h₀, c, h, hinit, hc, hcall, ⟨bs, xs, hinv, hxs, by omega⟩, bs', hinv', hrefused.1 rfl⟩

end DataRecorder.Kernel
