/-
  The driver of the SPI flash (`HARDWARE/Src/w25qxx.c`).

  The chip is NOR flash memory; a command sends 24 address bits, and 32 to a
  W25Q256.  The busy bit is cleared when a command ends, so `W25QXX_Wait_Busy`
  returns, and `W25QXX_Write_Enable` precedes every command that needs it; both
  are left out.  The state records the calls of `W25QXX_Write_Page`.

  * `writeNoCheck_stored`: `W25QXX_Write_NoCheck` stores its buffer in blank cells;
  * `write_stored`: `W25QXX_Write` stores its buffer, whatever the cells held.
-/
import DataRecorder.Base.Nor
import DataRecorder.Base.Loop
import Mathlib.Algebra.Ring.Nat
import Mathlib.Data.List.TakeWhile

namespace DataRecorder

open Base

def u16 (n : ℕ) : ℕ := n % 2 ^ 16

def u32 (n : ℕ) : ℕ := n % 2 ^ 32

def w25Q256 : ℕ := 0xEF18

/-- A chip: its type as in `W25QXX_TYPE`, and its capacity in bytes. -/
structure Chip where
  type : ℕ
  capacity : ℕ
  sectors : 4096 ∣ capacity
  addressable : capacity ≤ if type = w25Q256 then 2 ^ 32 else 2 ^ 24

/-- The cells of the chip, `W25QXX_BUFFER`, and the calls of `W25QXX_Write_Page`
    with address and number of bytes. -/
structure W25qxx where
  cells : ℕ → UInt8
  buffer : ℕ → UInt8
  pages : List (ℕ × ℕ)

section
variable (c : Chip)

/-- The address that the chip receives. -/
def Chip.address (a : ℕ) : ℕ := if c.type = w25Q256 then a % 2 ^ 32 else a % 2 ^ 24

/-- `W25QXX_Read`: the bytes stored in `pBuffer`. -/
def w25qxxRead (s : W25qxx) (readAddr numByteToRead : ℕ) : List UInt8 :=
  slice s.cells (c.address readAddr) numByteToRead

def w25qxxWritePage (s : W25qxx) (pBuffer : List UInt8) (writeAddr numByteToWrite : ℕ) : W25qxx :=
  { s with
    cells := programPage s.cells (c.address writeAddr) (pBuffer.take numByteToWrite)
    pages := s.pages ++ [(writeAddr, numByteToWrite)] }

def w25qxxEraseSector (s : W25qxx) (dstAddr : ℕ) : W25qxx :=
  { s with cells := eraseSector s.cells (c.address (u32 (dstAddr * 4096))) }

/-- The variables of `W25QXX_Write_NoCheck`, with what is left of the buffer. -/
structure NoCheck where
  flash : W25qxx
  pBuffer : List UInt8
  writeAddr : ℕ
  numByteToWrite : ℕ
  pageremain : ℕ

/-- One pass of the loop of `W25QXX_Write_NoCheck`. -/
def NoCheck.pass (t : NoCheck) : Pass NoCheck W25qxx :=
  let flash := w25qxxWritePage c t.flash t.pBuffer t.writeAddr t.pageremain
  if t.numByteToWrite = t.pageremain then .done flash
  else
    let numByteToWrite := u16 (t.numByteToWrite - t.pageremain)
    .next {
      flash := flash
      pBuffer := t.pBuffer.drop t.pageremain
      writeAddr := u32 (t.writeAddr + t.pageremain)
      numByteToWrite := numByteToWrite
      pageremain := if numByteToWrite > 256 then 256 else numByteToWrite }

def w25qxxWriteNoCheck (fuel : ℕ) (s : W25qxx) (pBuffer : List UInt8) (writeAddr numByteToWrite : ℕ) :
    Option W25qxx :=
  let pageremain := u16 (256 - writeAddr % 256)
  let pageremain := if numByteToWrite ≤ pageremain then numByteToWrite else pageremain
  loop (NoCheck.pass c) fuel ⟨s, pBuffer, writeAddr, numByteToWrite, pageremain⟩

structure Write where
  flash : W25qxx
  pBuffer : List UInt8
  writeAddr : ℕ
  numByteToWrite : ℕ
  secpos : ℕ
  secoff : ℕ
  secremain : ℕ

/-- The sector is read into `W25QXX_BUFFER`. -/
def Write.load (t : Write) : W25qxx :=
  { t.flash with buffer := blit t.flash.buffer 0 (w25qxxRead c t.flash (u32 (t.secpos * 4096)) 4096) }

/-- The sector is erased, and the new bytes are copied into `W25QXX_BUFFER`. -/
def Write.merge (t : Write) : W25qxx :=
  let flash := w25qxxEraseSector c (t.load c) t.secpos
  { flash with buffer := blit flash.buffer t.secoff (t.pBuffer.take t.secremain) }

/-- The part of the buffer that belongs into the sector is written, after an erase
    if the loop over these cells stops at one that is not blank. -/
def Write.store (fuel : ℕ) (t : Write) : Option W25qxx :=
  let i := ((slice (t.load c).buffer t.secoff t.secremain).takeWhile (· == 0xFF)).length
  if i < t.secremain then
    w25qxxWriteNoCheck c fuel (t.merge c) (slice (t.merge c).buffer 0 4096) (u32 (t.secpos * 4096)) 4096
  else w25qxxWriteNoCheck c fuel (t.load c) (t.pBuffer.take t.secremain) t.writeAddr t.secremain

/-- One pass of the loop of `W25QXX_Write`. -/
def Write.pass (fuel : ℕ) (t : Write) : Pass Write (Option W25qxx) :=
  match t.store c fuel with
  | none => .done none
  | some flash =>
    if t.numByteToWrite = t.secremain then .done (some flash)
    else
      let numByteToWrite := u16 (t.numByteToWrite - t.secremain)
      .next {
        flash := flash
        pBuffer := t.pBuffer.drop t.secremain
        writeAddr := u32 (t.writeAddr + t.secremain)
        numByteToWrite := numByteToWrite
        secpos := u32 (t.secpos + 1)
        secoff := 0
        secremain := if numByteToWrite > 4096 then 4096 else numByteToWrite }

def w25qxxWrite (fuel : ℕ) (s : W25qxx) (pBuffer : List UInt8) (writeAddr numByteToWrite : ℕ) :
    Option W25qxx :=
  let secoff := u16 (writeAddr % 4096)
  let secremain := u16 (4096 - secoff)
  let secremain := if numByteToWrite ≤ secremain then numByteToWrite else secremain
  (loop (Write.pass c fuel) fuel
    ⟨s, pBuffer, writeAddr, numByteToWrite, writeAddr / 4096, secoff, secremain⟩).join

end

/-! ## Arithmetic and addresses -/

theorem u16_eq {n : ℕ} (h : n < 2 ^ 16) : u16 n = n := Nat.mod_eq_of_lt h

theorem u32_eq {n : ℕ} (h : n < 2 ^ 32) : u32 n = n := Nat.mod_eq_of_lt h

namespace Chip

variable {c : Chip}

theorem capacity_le (c : Chip) : c.capacity ≤ 2 ^ 32 := by
  refine Nat.le_trans c.addressable ?_
  split
  · exact le_rfl
  · exact Nat.pow_le_pow_right (by decide) (by decide)

theorem address_eq {a : ℕ} (h : a < c.capacity) : c.address a = a := by
  have := c.addressable
  unfold address
  split
  · rename_i ht; rw [if_pos ht] at this; exact Nat.mod_eq_of_lt (by omega)
  · rename_i ht; rw [if_neg ht] at this; exact Nat.mod_eq_of_lt (by omega)

theorem sector_le {a : ℕ} (h : a < c.capacity) : a / 4096 * 4096 + 4096 ≤ c.capacity := by
  obtain ⟨k, hk⟩ := c.sectors
  omega

end Chip

/-! ## Pages -/

/-- `s'` comes from `s` by storing the bytes `l` from the address `a` on, with page
    writes that stay inside their pages. -/
structure Stored (s s' : W25qxx) (a : ℕ) (l : List UInt8) : Prop where
  cells : s'.cells = blit s.cells a l
  pages : ∃ new, s'.pages = s.pages ++ new ∧ ∀ p ∈ new, p.1 % 256 + p.2 ≤ 256

variable {c : Chip}

theorem writePage_stored {s : W25qxx} {l : List UInt8} {a r : ℕ} (hr : r ≤ l.length)
    (hfit : a + r ≤ c.capacity) (hpage : a % 256 + r ≤ 256) (hblank : Blank s.cells a (a + r)) :
    Stored s (w25qxxWritePage c s l a r) a (l.take r) := by
  have hlen : (l.take r).length = r := by rw [List.length_take, Nat.min_eq_left hr]
  refine ⟨?_, [(a, r)], rfl, ?_⟩
  · show programPage _ _ _ = _
    rcases Nat.eq_zero_or_pos r with rfl | hpos
    · rw [List.take_zero, blit_nil]; rfl
    · rw [Chip.address_eq (by omega), programPage_blank (by rwa [hlen]) (by rwa [hlen])]
  · intro p hp; rw [List.mem_singleton.1 hp]; exact hpage

theorem Stored.trans {s₀ s s' : W25qxx} {a r : ℕ} {l : List UInt8} (hr : r ≤ l.length)
    (h : Stored s₀ s a (l.take r)) (h' : Stored s s' (a + r) (l.drop r)) : Stored s₀ s' a l := by
  obtain ⟨hc, new, hp, hn⟩ := h
  obtain ⟨hc', new', hp', hn'⟩ := h'
  refine ⟨?_, new ++ new', by rw [hp', hp, List.append_assoc], ?_⟩
  · conv_rhs => rw [← List.take_append_drop r l, blit_append, List.length_take, Nat.min_eq_left hr]
    rw [hc', hc]
  · intro p hm
    rcases List.mem_append.1 hm with hm | hm
    · exact hn p hm
    · exact hn' p hm

/-- What the loop of `W25QXX_Write_NoCheck` keeps: storing what is left of the
    buffer completes the job. -/
structure NoCheck.Ok (c : Chip) (s : W25qxx) (a : ℕ) (l : List UInt8) (t : NoCheck) : Prop where
  length : t.pBuffer.length = t.numByteToWrite
  small : t.numByteToWrite < 2 ^ 16
  fits : t.writeAddr + t.numByteToWrite ≤ c.capacity
  remain : t.pageremain = min t.numByteToWrite (256 - t.writeAddr % 256)
  blank : Blank t.flash.cells t.writeAddr (t.writeAddr + t.numByteToWrite)
  rest : ∀ s', Stored t.flash s' t.writeAddr t.pBuffer → Stored s s' a l

section
variable {s : W25qxx} {a : ℕ} {l : List UInt8} {t : NoCheck}

theorem NoCheck.Ok.page (h : NoCheck.Ok c s a l t) :
    Stored t.flash (w25qxxWritePage c t.flash t.pBuffer t.writeAddr t.pageremain) t.writeAddr
      (t.pBuffer.take t.pageremain) := by
  obtain ⟨hlen, -, hfit, hrem, hblank, -⟩ := h
  exact writePage_stored (by omega) (by omega) (by omega) (hblank.mono le_rfl (by omega))

theorem NoCheck.Ok.next (h : NoCheck.Ok c s a l t) {t' : NoCheck} (ht : t.pass c = .next t') :
    NoCheck.Ok c s a l t' ∧ t'.numByteToWrite < t.numByteToWrite := by
  have hpage := h.page
  obtain ⟨hlen, hsmall, hfit, hrem, hblank, hrest⟩ := h
  have hcap := c.capacity_le
  unfold pass at ht
  dsimp only at ht
  split at ht
  · cases ht
  rename_i hne
  cases ht
  rw [u16_eq (by omega), u32_eq (by omega)]
  refine ⟨⟨?_, ?_, ?_, ?_, ?_, ?_⟩, ?_⟩
  · rw [List.length_drop, hlen]
  · show t.numByteToWrite - t.pageremain < _; omega
  · show t.writeAddr + t.pageremain + (t.numByteToWrite - t.pageremain) ≤ _; omega
  · -- the next page is written from its beginning
    show (if t.numByteToWrite - t.pageremain > 256 then 256 else t.numByteToWrite - t.pageremain) =
      min (t.numByteToWrite - t.pageremain) (256 - (t.writeAddr + t.pageremain) % 256)
    split <;> omega
  · show Blank _ (t.writeAddr + t.pageremain) (t.writeAddr + t.pageremain + (t.numByteToWrite - t.pageremain))
    rw [hpage.cells]
    exact Blank.blit (hblank.mono (by omega) (by omega)) (by rw [List.length_take]; omega)
  · intro s' hs'
    exact hrest s' (hpage.trans (by omega) hs')
  · show t.numByteToWrite - t.pageremain < _; omega

theorem NoCheck.Ok.done (h : NoCheck.Ok c s a l t) {s' : W25qxx} (ht : t.pass c = .done s') :
    Stored s s' a l := by
  have hpage := h.page
  unfold pass at ht
  dsimp only at ht
  split at ht
  · rename_i heq
    cases ht
    rw [← heq, ← h.length, List.take_length] at hpage
    rw [← heq, ← h.length]
    exact h.rest _ hpage
  · cases ht

end

/-- **`W25QXX_Write_NoCheck`** stores its buffer in blank cells. -/
theorem writeNoCheck_stored {s : W25qxx} {a fuel : ℕ} {l : List UInt8} (hsmall : l.length < 2 ^ 16)
    (hfit : a + l.length ≤ c.capacity) (hblank : Blank s.cells a (a + l.length)) (hfuel : l.length < fuel) :
    ∃ s', w25qxxWriteNoCheck c fuel s l a l.length = some s' ∧ Stored s s' a l := by
  refine loop_total (I := NoCheck.Ok c s a l) NoCheck.numByteToWrite (fun _ _ h => h.next)
    (fun _ _ h => h.done) ⟨rfl, hsmall, hfit, ?_, hblank, fun _ => id⟩ hfuel
  dsimp only
  rw [u16_eq (by omega)]
  split <;> omega

/-! ## Sectors -/

structure Write.Ok (c : Chip) (s : W25qxx) (a : ℕ) (l : List UInt8) (t : Write) : Prop where
  length : t.pBuffer.length = t.numByteToWrite
  small : t.numByteToWrite < 2 ^ 16
  fits : t.writeAddr + t.numByteToWrite ≤ c.capacity
  pos : t.secpos = t.writeAddr / 4096
  off : t.secoff = t.writeAddr % 4096
  remain : t.secremain = min t.numByteToWrite (4096 - t.secoff)
  rest : ∀ s', Stored t.flash s' t.writeAddr t.pBuffer → Stored s s' a l

theorem Write.load_cells (c : Chip) (t : Write) : (t.load c).cells = t.flash.cells := by
  simp only [Write.load]

theorem Write.load_pages (c : Chip) (t : Write) : (t.load c).pages = t.flash.pages := by
  simp only [Write.load]

theorem Write.merge_buffer (c : Chip) (t : Write) :
    (t.merge c).buffer = blit (t.load c).buffer t.secoff (t.pBuffer.take t.secremain) := by
  simp only [Write.merge, w25qxxEraseSector]

theorem Write.merge_pages (c : Chip) (t : Write) : (t.merge c).pages = t.flash.pages := by
  simp only [Write.merge, w25qxxEraseSector, Write.load]

/-- A loop over cells that runs to its end has found them all blank. -/
theorem blank_of_takeWhile {m : ℕ → UInt8} {a n : ℕ}
    (h : ¬ ((slice m a n).takeWhile (· == 0xFF)).length < n) : Blank m a (a + n) := by
  have hall : (slice m a n).takeWhile (· == 0xFF) = slice m a n :=
    (List.takeWhile_prefix _).eq_of_length_le (by rw [slice_length]; omega)
  intro i h₁ h₂
  obtain ⟨j, rfl⟩ := Nat.exists_eq_add_of_le h₁
  have hmem : m (a + j) ∈ slice m a n := List.mem_map.2 ⟨j, List.mem_range.2 (by omega), rfl⟩
  exact beq_iff_eq.1 (List.takeWhile_eq_self_iff.1 hall _ hmem)

/-- A sector with the bytes `l` copied into it, written back as a whole. -/
theorem blit_merged (m buffer : ℕ → UInt8) (base : ℕ) {off : ℕ} {l : List UInt8} (h : off + l.length ≤ 4096) :
    blit m base (slice (blit (blit buffer 0 (slice m base 4096)) off l) 0 4096) = blit m (base + off) l := by
  funext i
  by_cases hi : base ≤ i ∧ i < base + 4096
  · obtain ⟨j, rfl⟩ := Nat.exists_eq_add_of_le hi.1
    rw [blit_add _ _ (by rw [slice_length]; omega), slice_getElem, Nat.zero_add]
    by_cases hj : off ≤ j ∧ j < off + l.length
    · obtain ⟨k, rfl⟩ := Nat.exists_eq_add_of_le hj.1
      rw [blit_add _ _ (by omega), ← Nat.add_assoc, blit_add _ _ (by omega)]
    · have hsector := blit_add buffer 0 (k := j) (l := slice m base 4096) (by rw [slice_length]; omega)
      rw [Nat.zero_add, slice_getElem] at hsector
      rw [blit_outside (blit buffer 0 _) (by omega), hsector, blit_outside m (by omega)]
  · rw [blit_outside _ (by rw [slice_length]; omega), blit_outside _ (by omega)]

section
variable {s : W25qxx} {a fuel : ℕ} {l : List UInt8} {t : Write}

theorem rewriteSector_stored {flash s₀ : W25qxx} {k : ℕ} {l : List UInt8}
    (hk : k * 4096 + 4096 ≤ c.capacity) (hl : l.length = 4096)
    (hcells : flash.cells = eraseSector s₀.cells (k * 4096)) (hpages : flash.pages = s₀.pages)
    (hfuel : 2 ^ 16 ≤ fuel) :
    ∃ s', w25qxxWriteNoCheck c fuel flash l (u32 (k * 4096)) 4096 = some s' ∧ Stored s₀ s' (k * 4096) l := by
  have hcap := c.capacity_le
  have hblank : Blank flash.cells (k * 4096) (k * 4096 + l.length) := by
    rw [hl, hcells]; exact blank_eraseSector k
  obtain ⟨s', hs', hc', hp'⟩ := writeNoCheck_stored (c := c) (by omega) (by omega) hblank
    (Nat.lt_of_lt_of_le (by omega : l.length < 2 ^ 16) hfuel)
  rw [hl] at hs'
  rw [hcells, blit_eraseSector k hl] at hc'
  rw [hpages] at hp'
  exact ⟨s', by rwa [u32_eq (by omega)], hc', hp'⟩

/-- The sector that a pass works on is in `W25QXX_BUFFER`. -/
theorem Write.Ok.load (h : Write.Ok c s a l t) (h0 : 0 < t.secremain) :
    (t.load c).buffer = blit t.flash.buffer 0 (slice t.flash.cells (t.secpos * 4096) 4096) := by
  obtain ⟨-, -, hfit, hpos, -, hrem, -⟩ := h
  have hcap := c.capacity_le
  have hread : w25qxxRead c t.flash (u32 (t.secpos * 4096)) 4096 =
      slice t.flash.cells (t.secpos * 4096) 4096 := by
    rw [w25qxxRead, u32_eq (by omega), Chip.address_eq (by omega)]
  unfold Write.load
  dsimp only
  rw [hread]

/-- Where the loop over the cells ends without a `break` they are blank. -/
theorem Write.Ok.blank (h : Write.Ok c s a l t)
    (hi : ¬ ((slice (t.load c).buffer t.secoff t.secremain).takeWhile (· == 0xFF)).length < t.secremain) :
    Blank t.flash.cells t.writeAddr (t.writeAddr + t.secremain) := by
  rcases Nat.eq_zero_or_pos t.secremain with h0 | h0
  · intro i h₁ h₂; omega
  rw [h.load h0] at hi
  obtain ⟨-, -, -, hpos, hoff, hrem, -⟩ := h
  have hread := slice_blit_inside t.flash.buffer 0 (o := t.secoff) (n := t.secremain)
    (l := slice t.flash.cells (t.secpos * 4096) 4096) (by rw [slice_length]; omega)
  have hmin : min t.secremain (4096 - t.secoff) = t.secremain := Nat.min_eq_left (by omega)
  have haddr : t.secpos * 4096 + t.secoff = t.writeAddr := by omega
  rw [Nat.zero_add, slice_drop, slice_take, hmin, haddr] at hread
  rw [hread] at hi
  exact blank_of_takeWhile hi

theorem Write.Ok.merge (h : Write.Ok c s a l t) (h0 : 0 < t.secremain) :
    (t.merge c).cells = eraseSector t.flash.cells (t.secpos * 4096) ∧
      blit t.flash.cells (t.secpos * 4096) (slice (t.merge c).buffer 0 4096) =
        blit t.flash.cells t.writeAddr (t.pBuffer.take t.secremain) := by
  have hload := h.load h0
  obtain ⟨hlen, -, hfit, hpos, hoff, hrem, -⟩ := h
  have hcap := c.capacity_le
  have haddr : t.secpos * 4096 + t.secoff = t.writeAddr := by omega
  have htake : (t.pBuffer.take t.secremain).length = t.secremain := by rw [List.length_take]; omega
  have hroom : t.secoff + (t.pBuffer.take t.secremain).length ≤ 4096 := by omega
  constructor
  · unfold Write.merge w25qxxEraseSector
    dsimp only
    rw [u32_eq (by omega), Chip.address_eq (by omega), Write.load_cells]
  · rw [Write.merge_buffer, hload, ← haddr, blit_merged t.flash.cells t.flash.buffer (t.secpos * 4096) hroom]

/-- Each pass stores the part of the buffer that belongs into its sector. -/
theorem Write.Ok.store (h : Write.Ok c s a l t) (hfuel : 2 ^ 16 ≤ fuel) :
    ∃ flash, t.store c fuel = some flash ∧
      Stored t.flash flash t.writeAddr (t.pBuffer.take t.secremain) := by
  obtain ⟨hlen, hsmall, hfit, hpos, hoff, hrem, -⟩ := id h
  have htake : (t.pBuffer.take t.secremain).length = t.secremain := by rw [List.length_take]; omega
  have hpart : t.secremain < 2 ^ 16 ∧ t.writeAddr + t.secremain ≤ c.capacity := by omega
  unfold Write.store
  dsimp only
  split
  · rename_i hlt
    have h0 : 0 < t.secremain := by omega
    have hend : t.secpos * 4096 + 4096 ≤ c.capacity := by
      rw [hpos]; exact Chip.sector_le (by omega)
    obtain ⟨hcells, hbytes⟩ := h.merge h0
    obtain ⟨flash, hflash, hc, hp⟩ := rewriteSector_stored hend (slice_length (t.merge c).buffer 0 4096)
      hcells (Write.merge_pages c t) hfuel
    exact ⟨flash, hflash, hc.trans hbytes, hp⟩
  · rename_i hge
    have hblank := h.blank hge
    rw [← Write.load_cells c, ← htake] at hblank
    rw [← htake] at hpart
    obtain ⟨flash, hflash, hc, hp⟩ := writeNoCheck_stored hpart.1 hpart.2 hblank
      (Nat.lt_of_lt_of_le hpart.1 hfuel)
    rw [htake] at hflash
    rw [Write.load_cells] at hc
    rw [Write.load_pages] at hp
    exact ⟨flash, hflash, hc, hp⟩

theorem Write.Ok.next (h : Write.Ok c s a l t) (hfuel : 2 ^ 16 ≤ fuel) {t' : Write}
    (ht : t.pass c fuel = .next t') : Write.Ok c s a l t' ∧ t'.numByteToWrite < t.numByteToWrite := by
  obtain ⟨flash, hflash, hstored⟩ := h.store hfuel
  obtain ⟨hlen, hsmall, hfit, hpos, hoff, hrem, hrest⟩ := h
  have hcap := c.capacity_le
  unfold pass at ht
  rw [hflash] at ht
  dsimp only at ht
  split at ht
  · cases ht
  rename_i hne
  cases ht
  rw [u16_eq (by omega), u32_eq (by omega), u32_eq (by omega)]
  refine ⟨⟨?_, ?_, ?_, ?_, ?_, ?_, ?_⟩, ?_⟩
  · rw [List.length_drop, hlen]
  · show t.numByteToWrite - t.secremain < _; omega
  · show t.writeAddr + t.secremain + (t.numByteToWrite - t.secremain) ≤ _; omega
  · show t.secpos + 1 = (t.writeAddr + t.secremain) / 4096; omega
  · show 0 = (t.writeAddr + t.secremain) % 4096; omega
  · show (if t.numByteToWrite - t.secremain > 4096 then 4096 else t.numByteToWrite - t.secremain) =
      min (t.numByteToWrite - t.secremain) (4096 - 0)
    split <;> omega
  · intro s' hs'
    exact hrest s' (hstored.trans (by omega) hs')
  · show t.numByteToWrite - t.secremain < _; omega

theorem Write.Ok.done (h : Write.Ok c s a l t) (hfuel : 2 ^ 16 ≤ fuel) {r : Option W25qxx}
    (ht : t.pass c fuel = .done r) : ∃ s', r = some s' ∧ Stored s s' a l := by
  obtain ⟨flash, hflash, hstored⟩ := h.store hfuel
  unfold pass at ht
  rw [hflash] at ht
  dsimp only at ht
  split at ht
  · rename_i heq
    cases ht
    rw [← heq, ← h.length, List.take_length] at hstored
    exact ⟨flash, rfl, h.rest _ hstored⟩
  · cases ht

end

/-! ## The whole write -/

/-- A write: a buffer of at most 65535 bytes and an address, within the chip. -/
structure Request (c : Chip) where
  buffer : List UInt8
  addr : ℕ
  length_le : buffer.length ≤ 65535
  fits : addr + buffer.length ≤ c.capacity

/-- The loops of `W25QXX_Write` end, and the buffer is stored. -/
theorem write_stored (q : Request c) (s : W25qxx) {fuel : ℕ} (hfuel : 2 ^ 16 ≤ fuel) :
    ∃ s', w25qxxWrite c fuel s q.buffer q.addr q.buffer.length = some s' ∧ Stored s s' q.addr q.buffer := by
  have hlen := q.length_le
  have hstart : Write.Ok c s q.addr q.buffer ⟨s, q.buffer, q.addr, q.buffer.length, q.addr / 4096,
      u16 (q.addr % 4096), if q.buffer.length ≤ u16 (4096 - u16 (q.addr % 4096)) then q.buffer.length
        else u16 (4096 - u16 (q.addr % 4096))⟩ := by
    rw [u16_eq (n := q.addr % 4096) (by omega), u16_eq (by omega)]
    refine ⟨rfl, ?_, q.fits, rfl, rfl, ?_, fun _ => id⟩
    · show q.buffer.length < _; omega
    · dsimp only; split <;> omega
  obtain ⟨r, hr, s', rfl, hs'⟩ := loop_total (I := Write.Ok c s q.addr q.buffer) Write.numByteToWrite
    (fun _ _ h => h.next hfuel) (fun _ _ h => h.done hfuel) hstart (n := fuel) (by dsimp only; omega)
  exact ⟨s', by rw [w25qxxWrite]; exact congrArg Option.join hr, hs'⟩

/-- **`W25QXX_Write` stores its buffer** and changes no other cell, whatever the
    chip held before; reading gives the buffer back.  No page write crosses a page
    boundary, and 65536 passes of each loop are enough. -/
theorem w25qxxWrite_correct (c : Chip) (q : Request c) (s : W25qxx) (k : ℕ) :
    ∃ s', w25qxxWrite c (2 ^ 16 + k) s q.buffer q.addr q.buffer.length = some s' ∧
      s'.cells = blit s.cells q.addr q.buffer ∧
      w25qxxRead c s' q.addr q.buffer.length = q.buffer ∧
      ∃ new, s'.pages = s.pages ++ new ∧ ∀ p ∈ new, p.1 % 256 + p.2 ≤ 256 := by
  obtain ⟨s', hs', hcells, hpages⟩ := write_stored q s (Nat.le_add_right (2 ^ 16) k)
  refine ⟨s', hs', hcells, ?_, hpages⟩
  have hfit := q.fits
  rcases Nat.eq_zero_or_pos q.buffer.length with h0 | hpos
  · rw [List.eq_nil_of_length_eq_zero h0]; rfl
  · rw [w25qxxRead, Chip.address_eq (by omega), hcells, slice_blit]

def w25Q128 : ℕ := 0xEF17

/-- The chip of the board, of 16 MB. -/
def boardChip : Chip where
  type := w25Q128
  capacity := 2 ^ 24
  sectors := by decide
  addressable := by decide

def newBytes : List UInt8 := List.replicate 300 0xA5

theorem newBytes_length : newBytes.length = 300 := List.length_replicate

/-- The last 288 bytes of one sector and the first 12 of the next. -/
def acrossSectors : Request boardChip where
  buffer := newBytes
  addr := 12000
  length_le := by rw [newBytes_length]; decide
  fits := by rw [newBytes_length]; decide

/-- A chip on which no cell is blank. -/
def usedFlash : W25qxx := ⟨fun _ => 0x5A, fun _ => 0, []⟩

theorem w25qxxWrite_correct_acrossSectors : ∃ s',
    w25qxxWrite boardChip (2 ^ 16) usedFlash newBytes 12000 300 = some s' ∧
      (∀ i, s'.cells i = if 12000 ≤ i ∧ i < 12300 then 0xA5 else 0x5A) ∧
        w25qxxRead boardChip s' 12000 300 = newBytes := by
  obtain ⟨s', hs', hcells, hread, -⟩ := w25qxxWrite_correct boardChip acrossSectors usedFlash 0
  have hcells : s'.cells = blit usedFlash.cells 12000 newBytes := hcells
  have hlen : acrossSectors.buffer.length = 300 := newBytes_length
  rw [hlen] at hs' hread
  refine ⟨s', hs', fun i => ?_, hread⟩
  rw [hcells]
  by_cases hi : 12000 ≤ i ∧ i < 12300
  · obtain ⟨j, rfl⟩ := Nat.exists_eq_add_of_le hi.1
    have hj : j < newBytes.length := by rw [newBytes_length]; omega
    rw [if_pos hi, blit_add _ _ hj]
    exact List.getElem_replicate hj
  · rw [if_neg hi, blit_outside _ (by rw [newBytes_length]; omega)]
    rfl

end DataRecorder
