/-
  The calibration of the touch screen and its record in the EEPROM
  (`HARDWARE/TOUCH/touch.c`, `HARDWARE/24CXX/24cxx.c`).

  `TP_Save_Adjdata` writes the record in place, one byte at a time, and the
  marker `0x0A` after it; `TP_Get_Adjdata` trusts a record that is followed by
  the marker.
-/
import DataRecorder.Base.Memory
import DataRecorder.Base.Float
import DataRecorder.Base.Words

namespace DataRecorder.Touch

open Base

/-- What `float` and `double` compute. -/
structure Arithmetic where
  single : Rounding
  double : Rounding

abbrev Arithmetic.ieee : Arithmetic := ⟨binary32.rounding, binary64.rounding⟩

/-- Arithmetic without rounding. -/
abbrev Arithmetic.ideal : Arithmetic := ⟨exact, exact⟩

variable {A : Arithmetic}

/-- The calibration: the part of `_m_tp_dev` that is saved. -/
structure AdjData (A : Arithmetic) where
  xfac : FloatVal A.single
  yfac : FloatVal A.single
  xoff : Int16
  yoff : Int16
  touchtype : UInt8
  deriving DecidableEq

/-- `_m_tp_dev`, and the commands that select the channels of the converter.  Of the five
points only the first and the last are used. -/
structure TpDev (A : Arithmetic) extends AdjData A where
  x0 : UInt16
  y0 : UInt16
  x4 : UInt16
  y4 : UInt16
  sta : UInt8
  cmdRdx : UInt8
  cmdRdy : UInt8
  deriving DecidableEq

/-- The commands for the axes as they are on the screen, and for swapped axes. -/
def TpDev.selectAxes (tp : TpDev A) : TpDev A :=
  if tp.touchtype ≠ 0 then { tp with cmdRdx := 0x90, cmdRdy := 0xD0 }
  else { tp with cmdRdx := 0xD0, cmdRdy := 0x90 }

/-! ## The EEPROM -/

abbrev Eeprom := ℕ → UInt8

def lenByte (d : UInt32) (t : ℕ) : UInt8 := (d >>> UInt32.ofNat (8 * t) &&& 0xff).toUInt8

/-- The calls of `AT24CXX_WriteOneByte` that `AT24CXX_WriteLenByte` makes. -/
def at24cxxWriteLenByte (writeAddr : ℕ) (dataToWrite : UInt32) (len : ℕ) : List (ℕ × UInt8) :=
  (List.range len).map fun t => (writeAddr + t, lenByte dataToWrite t)

def at24cxxReadLenByte (e : Eeprom) (readAddr len : ℕ) : UInt32 :=
  (List.range len).foldl (fun temp t => (temp <<< 8) + (e (readAddr + len - t - 1)).toUInt32) 0

def saveAddrBase : ℕ := 40

/-- A factor, as it is stored: `temp = fac * 100000000`. -/
def tempOf (fac : FloatVal A.single) : Int32 := (fac.mul (.ofInt 100000000)).toInt32

/-- A stored factor, as it is loaded: `(float)tempfac / 100000000`. -/
def facOf (tempfac : Int32) : FloatVal A.single := (FloatVal.ofInt tempfac.toInt).div (.ofInt 100000000)

/-- The calls of `AT24CXX_WriteOneByte` that `TP_Save_Adjdata` makes. -/
def tpSaveAdjdata (tp : AdjData A) : List (ℕ × UInt8) :=
  at24cxxWriteLenByte saveAddrBase (tempOf tp.xfac).toUInt32 4 ++
  at24cxxWriteLenByte (saveAddrBase + 4) (tempOf tp.yfac).toUInt32 4 ++
  at24cxxWriteLenByte (saveAddrBase + 8) tp.xoff.toInt32.toUInt32 2 ++
  at24cxxWriteLenByte (saveAddrBase + 10) tp.yoff.toInt32.toUInt32 2 ++
  [(saveAddrBase + 12, tp.touchtype), (saveAddrBase + 13, 0x0A)]

def readAdj (e : Eeprom) : AdjData A where
  xfac := facOf (at24cxxReadLenByte e saveAddrBase 4).toInt32
  yfac := facOf (at24cxxReadLenByte e (saveAddrBase + 4) 4).toInt32
  xoff := (at24cxxReadLenByte e (saveAddrBase + 8) 2).toUInt16.toInt16
  yoff := (at24cxxReadLenByte e (saveAddrBase + 10) 2).toUInt16.toInt16
  touchtype := e (saveAddrBase + 12)

/-- `TP_Get_Adjdata`: `some` is a success, with what it makes of `tp_dev`. -/
def tpGetAdjdata (e : Eeprom) (tp : TpDev A) : Option (TpDev A) :=
  if e (saveAddrBase + 13) = 0x0A then some { tp with toAdjData := readAdj e }.selectAxes else none

/-! ## Bytes -/

theorem lenByte_toNat (d : UInt32) {t : ℕ} (h : t < 4) :
    (lenByte d t).toNat = d.toNat / 256 ^ t % 256 := by
  have h8 : 8 * t % 32 = 8 * t := Nat.mod_eq_of_lt (by omega)
  simp [lenByte, Nat.shiftRight_eq_div_pow, h8, Nat.pow_mul, Nat.and_two_pow_sub_one_eq_mod _ 8]

theorem readLenByte_four (e : Eeprom) (a : ℕ) : (at24cxxReadLenByte e a 4).toNat =
    (e a).toNat + (e (a + 1)).toNat * 256 + (e (a + 2)).toNat * 65536 +
      (e (a + 3)).toNat * 16777216 := by
  have h₀ := (e a).toNat_lt
  have h₁ := (e (a + 1)).toNat_lt
  have h₂ := (e (a + 2)).toNat_lt
  have h₃ := (e (a + 3)).toNat_lt
  simp [at24cxxReadLenByte, List.range_succ, Nat.shiftLeft_eq]
  omega

theorem readLenByte_two (e : Eeprom) (a : ℕ) : (at24cxxReadLenByte e a 2).toNat =
    (e a).toNat + (e (a + 1)).toNat * 256 := by
  have h₀ := (e a).toNat_lt
  have h₁ := (e (a + 1)).toNat_lt
  simp [at24cxxReadLenByte, List.range_succ, Nat.shiftLeft_eq]
  omega

def lenBytes (d : UInt32) (len : ℕ) : List UInt8 := (List.range len).map (lenByte d)

theorem readLenByte_of_four {e : Eeprom} {a : ℕ} {d : UInt32} (h : slice e a 4 = lenBytes d 4) :
    at24cxxReadLenByte e a 4 = d := by
  have hd := d.toNat_lt
  simp [slice, lenBytes, List.range_succ] at h
  obtain ⟨h₀, h₁, h₂, h₃⟩ := h
  apply UInt32.toNat_inj.1
  rw [readLenByte_four, h₀, h₁, h₂, h₃]
  simp only [lenByte_toNat d (show 0 < 4 by decide), lenByte_toNat d (show 1 < 4 by decide),
    lenByte_toNat d (show 2 < 4 by decide), lenByte_toNat d (show 3 < 4 by decide)]
  omega

theorem readLenByte_of_two {e : Eeprom} {a : ℕ} {d : UInt32} (h : slice e a 2 = lenBytes d 2) :
    (at24cxxReadLenByte e a 2).toUInt16 = d.toUInt16 := by
  simp [slice, lenBytes, List.range_succ] at h
  obtain ⟨h₀, h₁⟩ := h
  apply UInt16.toNat_inj.1
  rw [UInt32.toNat_toUInt16, UInt32.toNat_toUInt16, readLenByte_two, h₀, h₁]
  simp only [lenByte_toNat d (show 0 < 4 by decide), lenByte_toNat d (show 1 < 4 by decide)]
  omega

theorem short_roundTrip (x : Int16) : x.toInt32.toUInt32.toUInt16.toInt16 = x := by
  refine Int16.toBitVec_inj.1 ?_
  simp only [UInt16.toBitVec_toInt16, UInt32.toBitVec_toUInt16, Int32.toBitVec_toUInt32,
    Int16.toBitVec_toInt32]
  ext i hi
  rw [BitVec.getElem_setWidth, BitVec.getLsbD_signExtend]
  simp [hi, Nat.lt_trans hi (show 16 < 32 by decide)]

/-! ## The record -/

/-- The thirteen bytes of the record. -/
def recordBytes (tp : AdjData A) : List UInt8 :=
  lenBytes (tempOf tp.xfac).toUInt32 4 ++ lenBytes (tempOf tp.yfac).toUInt32 4 ++
  lenBytes tp.xoff.toInt32.toUInt32 2 ++ lenBytes tp.yoff.toInt32.toUInt32 2 ++ [tp.touchtype]

@[simp] theorem recordBytes_length (tp : AdjData A) : (recordBytes tp).length = 13 := rfl

theorem tpSaveAdjdata_eq (tp : AdjData A) :
    tpSaveAdjdata tp = upwards saveAddrBase (recordBytes tp ++ [0x0A]) := rfl

/-- The EEPROM after the first `k` byte writes of `TP_Save_Adjdata`. -/
def cut (e : Eeprom) (tp : AdjData A) (k : ℕ) : Eeprom := writes e ((tpSaveAdjdata tp).take k)

def saved (e : Eeprom) (tp : AdjData A) : Eeprom := writes e (tpSaveAdjdata tp)

theorem cut_eq (e : Eeprom) (tp : AdjData A) (k : ℕ) :
    cut e tp k = blit e saveAddrBase ((recordBytes tp ++ [0x0A]).take k) := by
  rw [cut, tpSaveAdjdata_eq, upwards_take, writes_upwards]

theorem saved_eq (e : Eeprom) (tp : AdjData A) :
    saved e tp = blit e saveAddrBase (recordBytes tp ++ [0x0A]) := by
  rw [saved, tpSaveAdjdata_eq, writes_upwards]

theorem cut_of_ge (e : Eeprom) (tp : AdjData A) {k : ℕ} (h : 14 ≤ k) : cut e tp k = saved e tp := by
  rw [cut_eq, saved_eq, List.take_of_length_le (by simpa using h)]

theorem cut_later (e : Eeprom) (tp : AdjData A) {k i : ℕ} (h : saveAddrBase + k ≤ i) :
    cut e tp k i = e i := by
  rw [cut_eq, blit_of_ge _ (by simp; omega)]

theorem cut_earlier (e : Eeprom) (tp : AdjData A) {k i : ℕ} (h : i < saveAddrBase + k) :
    cut e tp k i = saved e tp i := by
  rw [cut_eq, saved_eq]
  rcases Nat.lt_or_ge i saveAddrBase with hi | hi
  · rw [blit_of_lt _ _ hi, blit_of_lt _ _ hi]
  obtain ⟨t, rfl⟩ := Nat.exists_eq_add_of_le hi
  simp only [blit, hi, if_true, Nat.add_sub_cancel_left]
  rw [List.getElem?_take_of_lt (by omega)]

theorem saved_marker (e : Eeprom) (tp : AdjData A) : saved e tp (saveAddrBase + 13) = 0x0A := by
  rw [saved_eq, blit_add _ _ (by simp)]; rfl

theorem slice_saved (e : Eeprom) (tp : AdjData A) : slice (saved e tp) saveAddrBase 13 = recordBytes tp := by
  rw [saved_eq, blit_append, slice_blit_outside _ (by simp), slice_blit_eq _ _ (by simp)]

/-- A calibration, as the record keeps it. -/
def AdjData.stored (tp : AdjData A) : AdjData A :=
  { tp with xfac := facOf (tempOf tp.xfac), yfac := facOf (tempOf tp.yfac) }

/-- **Loading what was saved.** -/
theorem readAdj_of_slice {e : Eeprom} {tp : AdjData A} (h : slice e saveAddrBase 13 = recordBytes tp) :
    readAdj e = tp.stored := by
  have hfield : ∀ o n, o + n ≤ 13 →
      slice e (saveAddrBase + o) n = ((recordBytes tp).drop o).take n := fun o n hn => by
    rw [← h, slice_drop, slice_take, Nat.min_eq_left (by omega)]
  have hx : at24cxxReadLenByte e saveAddrBase 4 = (tempOf tp.xfac).toUInt32 :=
    readLenByte_of_four (hfield 0 4 (by decide))
  have hy : at24cxxReadLenByte e (saveAddrBase + 4) 4 = (tempOf tp.yfac).toUInt32 :=
    readLenByte_of_four (hfield 4 4 (by decide))
  have hx' := readLenByte_of_two (d := tp.xoff.toInt32.toUInt32) (hfield 8 2 (by decide))
  have hy' := readLenByte_of_two (d := tp.yoff.toInt32.toUInt32) (hfield 10 2 (by decide))
  have ht : [e (saveAddrBase + 12)] = [tp.touchtype] := hfield 12 1 (by decide)
  simp only [readAdj, AdjData.stored, hx, hy, hx', hy', List.singleton_inj.1 ht, short_roundTrip,
    Int32.toInt32_toUInt32]

/-! ## Power cuts while the record is written -/

/-- Four bytes, the lowest first, that stand for the same `float`. -/
def SameFactor (A : Arithmetic) (bs bs' : List UInt8) : Prop :=
  (facOf (UInt32.ofNat (leNat bs)).toInt32 : FloatVal A.single) = facOf (UInt32.ofNat (leNat bs')).toInt32

/-- The fields of the record. -/
inductive Field where
  | xfac | yfac | xoff | yoff | touchtype

namespace Field

/-- Where the field starts in the record. -/
def start : Field → ℕ
  | xfac => 0
  | yfac => 4
  | xoff => 8
  | yoff => 10
  | touchtype => 12

def size : Field → ℕ
  | xfac => 4
  | yfac => 4
  | xoff => 2
  | yoff => 2
  | touchtype => 1

def stop (f : Field) : ℕ := f.start + f.size

/-- The bytes of the field. -/
def bytes (f : Field) (record : List UInt8) : List UInt8 := (record.drop f.start).take f.size

/-- The bytes of the field, if the first `k` bytes of the record are new. -/
def torn (f : Field) (old new : List UInt8) (k : ℕ) : List UInt8 :=
  (f.bytes new).take (k - f.start) ++ (f.bytes old).drop (k - f.start)

/-- Bytes that say the same: the same bytes, or the same factor. -/
def Alike (A : Arithmetic) : Field → List UInt8 → List UInt8 → Prop
  | xfac => SameFactor A
  | yfac => SameFactor A
  | _ => Eq

def Same (a b : AdjData A) : Field → Prop
  | xfac => a.xfac = b.xfac
  | yfac => a.yfac = b.yfac
  | xoff => a.xoff = b.xoff
  | yoff => a.yoff = b.yoff
  | touchtype => a.touchtype = b.touchtype

theorem eq_iff_same {a b : AdjData A} : a = b ↔ ∀ f, Same a b f := by
  constructor
  · rintro rfl f
    cases f <;> rfl
  · intro h
    obtain ⟨_, _, _, _, _⟩ := a
    obtain ⟨_, _, _, _, _⟩ := b
    simp only [AdjData.mk.injEq]
    exact ⟨h xfac, h yfac, h xoff, h yoff, h touchtype⟩

theorem readLenByte_number (e : Eeprom) (a : ℕ) :
    at24cxxReadLenByte e a 4 = UInt32.ofNat (leNat (slice e a 4)) := by
  have h₀ := (e a).toNat_lt
  have h₁ := (e (a + 1)).toNat_lt
  have h₂ := (e (a + 2)).toNat_lt
  have h₃ := (e (a + 3)).toNat_lt
  apply UInt32.toNat_inj.1
  simp [readLenByte_four, slice, leNat, List.range_succ]
  omega

theorem readLenByte_short {e e' : Eeprom} {a : ℕ} :
    (at24cxxReadLenByte e a 2).toUInt16.toInt16 = (at24cxxReadLenByte e' a 2).toUInt16.toInt16 ↔
      slice e a 2 = slice e' a 2 := by
  have h₀ := (e a).toNat_lt
  have h₁ := (e (a + 1)).toNat_lt
  have h₀' := (e' a).toNat_lt
  have h₁' := (e' (a + 1)).toNat_lt
  have hshort (x y : UInt16) : x.toInt16 = y.toInt16 ↔ x = y :=
    ⟨fun h => by simpa using congrArg Int16.toUInt16 h, fun h => by rw [h]⟩
  have hslice (e : Eeprom) : slice e a 2 = [e a, e (a + 1)] := rfl
  rw [hshort, ← UInt16.toNat_inj, UInt32.toNat_toUInt16, UInt32.toNat_toUInt16, readLenByte_two, readLenByte_two,
    hslice, hslice, List.cons_eq_cons, List.singleton_inj, ← UInt8.toNat_inj, ← UInt8.toNat_inj]
  omega

/-- What is read of a field depends on its bytes, and tells them as far as `Alike` does. -/
theorem same_iff_alike {e e' : Eeprom} (f : Field) : f.Same (readAdj e : AdjData A) (readAdj e') ↔
    f.Alike A (slice e (saveAddrBase + f.start) f.size) (slice e' (saveAddrBase + f.start) f.size) := by
  cases f with
  | xfac =>
    show facOf (at24cxxReadLenByte e saveAddrBase 4).toInt32 = facOf (at24cxxReadLenByte e' saveAddrBase 4).toInt32 ↔ _
    rw [readLenByte_number, readLenByte_number]
    exact Iff.rfl
  | yfac =>
    show facOf (at24cxxReadLenByte e (saveAddrBase + 4) 4).toInt32 =
      facOf (at24cxxReadLenByte e' (saveAddrBase + 4) 4).toInt32 ↔ _
    rw [readLenByte_number, readLenByte_number]
    exact Iff.rfl
  | xoff => exact readLenByte_short
  | yoff => exact readLenByte_short
  | touchtype => exact List.singleton_inj.symm

theorem alike_refl (f : Field) (bs : List UInt8) : f.Alike A bs bs := by cases f <;> exact rfl

theorem stop_le (f : Field) : f.stop ≤ 13 := by cases f <;> decide

end Field

/-- The `k` writes have changed nothing that the old record says: the fields that they have written
say what the old ones say, and so does the one that they have torn. -/
structure KeepsOld (A : Arithmetic) (old new : List UInt8) (k : ℕ) : Prop where
  written : ∀ f : Field, f.stop ≤ k → f.Alike A (f.bytes new) (f.bytes old)
  torn : ∀ f : Field, f.start < k → k < f.stop → f.Alike A (f.torn old new k) (f.bytes old)

/-- The `k` writes have left nothing to be changed: the fields that they have not reached say what
the new ones will say, and so does the one that they have torn. -/
structure CompletesNew (A : Arithmetic) (old new : List UInt8) (k : ℕ) : Prop where
  left : ∀ f : Field, k ≤ f.start → f.Alike A (f.bytes old) (f.bytes new)
  torn : ∀ f : Field, f.start < k → k < f.stop → f.Alike A (f.torn old new k) (f.bytes new)

/-- A block of cells, of which those below `j` are as in one memory and the others as in another. -/
theorem slice_mixed {e e₁ e₂ : Eeprom} {a n : ℕ} (j : ℕ) (h₁ : ∀ i, a ≤ i → i < a + j → e i = e₁ i)
    (h₂ : ∀ i, a + j ≤ i → e i = e₂ i) : slice e a n = (slice e₁ a n).take j ++ (slice e₂ a n).drop j := by
  refine List.ext_getElem (by simp; omega) fun i hi hi' => ?_
  rw [slice_length] at hi
  rw [slice_getElem, List.getElem_append]
  split_ifs with hj
  · rw [List.length_take, slice_length] at hj
    rw [List.getElem_take, slice_getElem, h₁ _ (by omega) (by omega)]
  · rw [List.length_take, slice_length] at hj
    simp only [List.getElem_drop, slice_getElem, List.length_take, slice_length]
    rw [h₂ _ (by omega), show j + (i - min j n) = i by omega]

namespace Field

variable (e : Eeprom) (tp : AdjData A) (k : ℕ) (f : Field)

theorem slice_old : slice e (saveAddrBase + f.start) f.size = f.bytes (slice e saveAddrBase 13) := by
  have hstop := f.stop_le
  rw [stop] at hstop
  rw [bytes, slice_drop, slice_take, Nat.min_eq_left (by omega)]

theorem slice_new : slice (saved e tp) (saveAddrBase + f.start) f.size = f.bytes (recordBytes tp) := by
  rw [slice_old, slice_saved]

theorem slice_cut : slice (cut e tp k) (saveAddrBase + f.start) f.size =
    f.torn (slice e saveAddrBase 13) (recordBytes tp) k := by
  rw [torn, ← slice_old, ← slice_new e]
  rcases Nat.le_total k f.start with hk | hk
  · rw [Nat.sub_eq_zero_of_le hk, List.take_zero, List.drop_zero, List.nil_append]
    exact slice_congr fun i hi _ => cut_later e tp (by omega)
  · exact slice_mixed (k - f.start) (fun i _ hi => cut_earlier e tp (by omega)) fun i hi => cut_later e tp (by omega)

theorem torn_of_le {old new : List UInt8} {k : ℕ} (hk : k ≤ f.start) : f.torn old new k = f.bytes old := by
  rw [torn, Nat.sub_eq_zero_of_le hk, List.take_zero, List.drop_zero, List.nil_append]

theorem torn_of_ge {old new : List UInt8} {k : ℕ} (hk : f.stop ≤ k) : f.torn old new k = f.bytes new := by
  have hlen (l : List UInt8) : (f.bytes l).length ≤ k - f.start := by
    have hsize : (f.bytes l).length ≤ f.size := List.length_take_le _ _
    rw [stop] at hk
    omega
  rw [torn, List.take_of_length_le (hlen new), List.drop_of_length_le (hlen old), List.append_nil]

end Field

section
variable (e : Eeprom) (tp : AdjData A) (k : ℕ)

theorem readAdj_cut_old : (readAdj (cut e tp k) : AdjData A) = readAdj e ↔
    KeepsOld A (slice e saveAddrBase 13) (recordBytes tp) k := by
  have hfield (f : Field) : f.Same (readAdj (cut e tp k) : AdjData A) (readAdj e) ↔
      f.Alike A (f.torn (slice e saveAddrBase 13) (recordBytes tp) k) (f.bytes (slice e saveAddrBase 13)) := by
    rw [Field.same_iff_alike, Field.slice_cut, Field.slice_old]
  simp only [Field.eq_iff_same, hfield]
  constructor
  · exact fun h => ⟨fun f hf => f.torn_of_ge hf ▸ h f, fun f _ _ => h f⟩
  · intro h f
    by_cases hstart : f.start < k
    · by_cases hstop : f.stop ≤ k
      · exact (f.torn_of_ge hstop).symm ▸ h.written f hstop
      · exact h.torn f hstart (Nat.lt_of_not_le hstop)
    · exact (f.torn_of_le (Nat.le_of_not_lt hstart)).symm ▸ f.alike_refl _

theorem readAdj_cut_new : (readAdj (cut e tp k) : AdjData A) = readAdj (saved e tp) ↔
    CompletesNew A (slice e saveAddrBase 13) (recordBytes tp) k := by
  have hfield (f : Field) : f.Same (readAdj (cut e tp k) : AdjData A) (readAdj (saved e tp)) ↔
      f.Alike A (f.torn (slice e saveAddrBase 13) (recordBytes tp) k) (f.bytes (recordBytes tp)) := by
    rw [Field.same_iff_alike, Field.slice_cut, Field.slice_new]
  simp only [Field.eq_iff_same, hfield]
  constructor
  · exact fun h => ⟨fun f hf => f.torn_of_le hf ▸ h f, fun f _ _ => h f⟩
  · intro h f
    by_cases hstart : f.start < k
    · by_cases hstop : f.stop ≤ k
      · exact (f.torn_of_ge hstop).symm ▸ f.alike_refl _
      · exact h.torn f hstart (Nat.lt_of_not_le hstop)
    · exact (f.torn_of_le (Nat.le_of_not_lt hstart)).symm ▸ h.left f (Nat.le_of_not_lt hstart)

end

@[simp] theorem TpDev.selectAxes_toAdjData (tp : TpDev A) : tp.selectAxes.toAdjData = tp.toAdjData := by
  unfold TpDev.selectAxes
  split_ifs <;> rfl

theorem tpGetAdjdata_of_marker {e : Eeprom} (tp : TpDev A) (h : e (saveAddrBase + 13) = 0x0A) :
    tpGetAdjdata e tp = some { tp with toAdjData := readAdj e }.selectAxes := if_pos h

theorem tpGetAdjdata_eq_iff {e e' : Eeprom} {tp : TpDev A} (h : e (saveAddrBase + 13) = 0x0A)
    (h' : e' (saveAddrBase + 13) = 0x0A) :
    tpGetAdjdata e tp = tpGetAdjdata e' tp ↔ (readAdj e : AdjData A) = readAdj e' := by
  rw [tpGetAdjdata_of_marker tp h, tpGetAdjdata_of_marker tp h', Option.some_inj]
  constructor
  · intro heq
    simpa using congrArg TpDev.toAdjData heq
  · intro heq
    rw [heq]

/-- After a cut at `k`, the next `TP_Get_Adjdata` fails, or it finds the whole of the previous
record, or the whole of the new one. -/
def Consistent (e : Eeprom) (tp : AdjData A) (k : ℕ) : Prop :=
  ∀ dev dev' : TpDev A, tpGetAdjdata (cut e tp k) dev = some dev' →
    tpGetAdjdata e dev = some dev' ∨ tpGetAdjdata (saved e tp) dev = some dev'

def TpDev.reset : TpDev A where
  xfac := .ofInt 0
  yfac := .ofInt 0
  xoff := 0
  yoff := 0
  touchtype := 0
  x0 := 0
  y0 := 0
  x4 := 0
  y4 := 0
  sta := 0
  cmdRdx := 0xD0
  cmdRdy := 0x90

/-- **Which cuts are harmless**: one behind the last write, one in a record that was not marked as valid, and
one at which the old bytes and the new ones say the same. -/
theorem consistent_iff (e : Eeprom) (tp : AdjData A) (k : ℕ) :
    Consistent e tp k ↔ 14 ≤ k ∨ e (saveAddrBase + 13) ≠ 0x0A ∨
      KeepsOld A (slice e saveAddrBase 13) (recordBytes tp) k ∨
      CompletesNew A (slice e saveAddrBase 13) (recordBytes tp) k := by
  rcases Nat.lt_or_ge k 14 with hk | hk
  swap
  · refine ⟨fun _ => Or.inl hk, fun _ dev dev' h => Or.inr ?_⟩
    rwa [cut_of_ge e tp hk] at h
  -- the marker is still the old one
  have hmark : cut e tp k (saveAddrBase + 13) = e (saveAddrBase + 13) := cut_later e tp (by omega)
  by_cases he : e (saveAddrBase + 13) = 0x0A
  swap
  · refine ⟨fun _ => Or.inr (Or.inl he), fun _ dev dev' h => ?_⟩
    rw [tpGetAdjdata, hmark, if_neg he] at h
    cases h
  have hcut : cut e tp k (saveAddrBase + 13) = 0x0A := hmark.trans he
  rw [← readAdj_cut_old, ← readAdj_cut_new]
  constructor
  · intro h
    have hget := tpGetAdjdata_of_marker (.reset : TpDev A) hcut
    rcases h .reset _ hget with h | h
    · exact Or.inr (Or.inr (Or.inl ((tpGetAdjdata_eq_iff hcut he).1 (hget.trans h.symm))))
    · exact Or.inr (Or.inr (Or.inr
        ((tpGetAdjdata_eq_iff hcut (saved_marker e tp)).1 (hget.trans h.symm))))
  · rintro (h | h | h | h) dev dev' hget
    · omega
    · exact absurd he h
    · exact Or.inl ((tpGetAdjdata_eq_iff hcut he).2 h ▸ hget)
    · exact Or.inr ((tpGetAdjdata_eq_iff hcut (saved_marker e tp)).2 h ▸ hget)

/-- Factors `1`, and factors `2`. -/
def plainAdj : AdjData .ieee := ⟨.ofInt 1, .ofInt 1, -80, -80, 0⟩

def doubledAdj : AdjData .ieee := ⟨.ofInt 2, .ofInt 2, -320, -240, 0⟩

/-- Power is lost between the two factors. -/
theorem not_consistent : ¬ Consistent (saved (fun _ => 0xFF) plainAdj) doubledAdj 4 := by
  intro h
  have hmark : cut (saved (fun _ => 0xFF) plainAdj) doubledAdj 4 (saveAddrBase + 13) = 0x0A := by
    decide +kernel
  have hget := tpGetAdjdata_of_marker (.reset : TpDev .ieee) hmark
  rcases h .reset _ hget with h | h
  · rw [← hget] at h
    exact absurd h (by decide +kernel)
  · rw [← hget] at h
    exact absurd h (by decide +kernel)

end DataRecorder.Touch
