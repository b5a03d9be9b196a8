/-
  NOR flash memory: cells that a sector erase sets to 0xFF and that a page program
  can only clear bits of.

  * `eraseSector m a` erases the 4096-byte sector of the address `a`;
  * `programPage m a l` programs the bytes `l` from the address `a` on, wrapping
    inside the 256-byte page of `a`;
  * `programPage_blank`: where no wrap occurs and the cells are blank, this is a
    plain write.
-/
import DataRecorder.Base.Memory
import Mathlib.Logic.Function.Basic

namespace Base

def eraseSector (m : ℕ → UInt8) (a : ℕ) : ℕ → UInt8 := fun i => if i / 4096 = a / 4096 then 0xFF else m i

/-- The bytes programmed into the page that begins at `page`, from the offset
    `off` on. -/
def program (page : ℕ) : (ℕ → UInt8) → ℕ → List UInt8 → ℕ → UInt8
  | m, _, [] => m
  | m, off, b :: l =>
    program page (Function.update m (page + off) (m (page + off) &&& b)) ((off + 1) % 256) l

/-- A page program at `a`. -/
def programPage (m : ℕ → UInt8) (a : ℕ) (l : List UInt8) : ℕ → UInt8 :=
  program (256 * (a / 256)) m (a % 256) l

/-- The cells from `a` to `b` are erased. -/
def Blank (m : ℕ → UInt8) (a b : ℕ) : Prop := ∀ i, a ≤ i → i < b → m i = 0xFF

variable {m : ℕ → UInt8} {a b : ℕ}

theorem program_apply {page off : ℕ} {l : List UInt8} (h : off + l.length ≤ 256) (i : ℕ) :
    program page m off l i =
      if page + off ≤ i then (l[i - (page + off)]?.map (m i &&& ·)).getD (m i) else m i := by
  induction l generalizing m off with
  | nil => simp [program]
  | cons b l ih =>
    rw [List.length_cons] at h
    rw [program]
    by_cases hl : l = []
    · -- the last byte of the page may be reached here
      subst hl
      rw [program]
      by_cases hi : i = page + off
      · subst hi; simp
      · rw [Function.update_of_ne hi]
        split
        · rw [List.getElem?_eq_none (by rw [List.length_singleton]; omega)]; rfl
        · rfl
    have hpos := List.length_pos_iff.2 hl
    rw [Nat.mod_eq_of_lt (by omega), ih (by omega)]
    by_cases hi : i = page + off
    · subst hi; rw [if_neg (by omega)]; simp
    · rw [Function.update_of_ne hi]
      by_cases hlt : page + off ≤ i
      · rw [if_pos (by omega), if_pos hlt, show i - (page + off) = i - (page + (off + 1)) + 1 by omega,
          List.getElem?_cons_succ]
      · rw [if_neg (by omega), if_neg hlt]

theorem and_blank (b : UInt8) : 0xFF &&& b = b := by
  apply UInt8.toNat_inj.1
  rw [UInt8.toNat_and, Nat.and_comm]
  exact Nat.and_two_pow_sub_one_of_lt_two_pow (n := 8) b.toNat_lt

/-- **A page program of blank cells** that does not wrap is a plain write. -/
theorem programPage_blank {l : List UInt8} (hl : a % 256 + l.length ≤ 256) (h : Blank m a (a + l.length)) :
    programPage m a l = blit m a l := by
  funext i
  have ha : 256 * (a / 256) + a % 256 = a := Nat.div_add_mod a 256
  rw [programPage, program_apply hl, ha, blit]
  split
  · rename_i hi
    cases hb : l[i - a]? with
    | none => rfl
    | some b =>
      have hlt := (List.getElem?_eq_some_iff.1 hb).1
      rw [h i hi (by omega)]; exact and_blank b
  · rfl

theorem eraseSector_in {i : ℕ} (h : i / 4096 = a / 4096) : eraseSector m a i = 0xFF := if_pos h

theorem eraseSector_out {i : ℕ} (h : i / 4096 ≠ a / 4096) : eraseSector m a i = m i := if_neg h

theorem Blank.mono {a' b' : ℕ} (h : Blank m a b) (ha : a ≤ a') (hb : b' ≤ b) : Blank m a' b' :=
  fun i h₁ h₂ => h i (Nat.le_trans ha h₁) (Nat.lt_of_lt_of_le h₂ hb)

theorem Blank.blit {l : List UInt8} (h : Blank m a b) {c : ℕ} (hc : c + l.length ≤ a) :
    Blank (blit m c l) a b := by
  intro i h₁ h₂
  rw [blit_of_ge m (by omega)]; exact h i h₁ h₂

theorem blank_eraseSector (k : ℕ) : Blank (eraseSector m (k * 4096)) (k * 4096) (k * 4096 + 4096) := by
  intro i h₁ h₂
  exact eraseSector_in (by omega)

/-- Erasing a sector and writing it back is a plain write of the sector. -/
theorem blit_eraseSector (k : ℕ) {l : List UInt8} (hl : l.length = 4096) :
    blit (eraseSector m (k * 4096)) (k * 4096) l = blit m (k * 4096) l := by
  funext i
  by_cases hi : k * 4096 ≤ i ∧ i < k * 4096 + 4096
  · obtain ⟨j, rfl⟩ := Nat.exists_eq_add_of_le hi.1
    rw [blit_add _ _ (by omega), blit_add _ _ (by omega)]
  · rw [blit_outside _ (by omega), blit_outside _ (by omega), eraseSector_out (by omega)]

end Base
