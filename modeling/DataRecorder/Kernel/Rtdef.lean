/-
  Constants and macros of the kernel (`rtdef.h`, `rtconfig.h`).

  Sizes are machine words, so `RT_ALIGN` wraps around for the last three of them
  (`rtAlign_toNat`).
-/
import Mathlib.Algebra.Order.Ring.Nat
import Mathlib.Data.Nat.Basic
import Mathlib.Tactic.Common

namespace DataRecorder.Kernel

abbrev RT_ERROR : ℤ := 1
abbrev RT_ETIMEOUT : ℤ := 2
abbrev RT_EFULL : ℤ := 3

abbrev RT_ALIGN_SIZE : UInt32 := 4

def rtAlign (size align : UInt32) : UInt32 := (size + align - 1) &&& ~~~(align - 1)

def rtAlignDown (size align : UInt32) : UInt32 := size &&& ~~~(align - 1)

/-- A mask and its complement part a word. -/
theorem and_not_add_and (x mask : UInt32) : (x &&& ~~~mask).toNat + (x &&& mask).toNat = x.toNat := by
  have hdisjoint : (x.toBitVec &&& ~~~mask.toBitVec) &&& (x.toBitVec &&& mask.toBitVec) = 0#32 := by
    ext i hi
    simp only [BitVec.getElem_and, BitVec.getElem_not, BitVec.getElem_zero]
    cases mask.toBitVec[i] <;> simp
  have hjoin : (x.toBitVec &&& ~~~mask.toBitVec) ||| (x.toBitVec &&& mask.toBitVec) = x.toBitVec := by
    ext i hi
    simp only [BitVec.getElem_or, BitVec.getElem_and, BitVec.getElem_not]
    cases mask.toBitVec[i] <;> simp
  have hsum := BitVec.toNat_add_of_and_eq_zero hdisjoint
  rw [BitVec.add_eq_or_of_and_eq_zero _ _ hdisjoint, hjoin] at hsum
  exact hsum.symm

theorem rtAlignDown_toNat (size : UInt32) : (rtAlignDown size RT_ALIGN_SIZE).toNat = size.toNat / 4 * 4 := by
  have hparts := and_not_add_and size 3
  have hmask : (size &&& 3).toNat = size.toNat % 4 := by
    rw [UInt32.toNat_and]
    exact Nat.and_two_pow_sub_one_eq_mod size.toNat 2
  have hdown : rtAlignDown size RT_ALIGN_SIZE = size &&& ~~~3 := rfl
  rw [hdown]
  omega

theorem rtAlign_toNat (size : UInt32) :
    (rtAlign size RT_ALIGN_SIZE).toNat = (size.toNat + 3) % 2 ^ 32 / 4 * 4 := by
  have hdown : rtAlign size RT_ALIGN_SIZE = rtAlignDown (size + 3) RT_ALIGN_SIZE := by
    have hsum : size + RT_ALIGN_SIZE - 1 = size + 3 := by
      rw [UInt32.sub_eq_add_neg, UInt32.add_assoc]
      rfl
    rw [rtAlign, hsum]
    rfl
  rw [hdown, rtAlignDown_toNat, UInt32.toNat_add]
  rfl

/-- The next multiple of four, unless it is not a word. -/
theorem rtAlign_eq {size : UInt32} (h : size.toNat ≤ 2 ^ 32 - 4) :
    (rtAlign size RT_ALIGN_SIZE).toNat = (size.toNat + 3) / 4 * 4 := by
  rw [rtAlign_toNat, Nat.mod_eq_of_lt (by omega)]

end DataRecorder.Kernel
