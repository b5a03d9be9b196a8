/-
  Text on the display (`LCD_ShowString`).

  A string is drawn character by character into a window; where the cursor is at
  the right edge a new line begins.  The column in which it begins is kept in 8
  bits.

  * `showStringFrom_iff`: the characters that remain, from any cursor of the grid;
  * `laysOut_iff`: the text is laid out as intended if and only if it starts in
    one of the first 256 columns or never needs a second line.
-/
import Mathlib.Algebra.Order.Floor.Div
import Mathlib.Tactic.Common

namespace DataRecorder.Lcd

/-- A call of `LCD_ShowChar`. -/
structure CharCall where
  x : UInt16
  y : UInt16
  num : UInt8
  size : UInt8
  mode : UInt8

structure Cursor where
  x : UInt16
  y : UInt16

/-- A new line where the cursor is at the right edge. -/
def Cursor.wrap (x0 : UInt8) (width : UInt16) (size : UInt8) (cur : Cursor) : Cursor :=
  if cur.x ≥ width then ⟨x0.toUInt16, cur.y + size.toUInt16⟩ else cur

/-- The loop of `LCD_ShowString`; the string ends at the first byte that is not printable. -/
def showStringFrom (x0 : UInt8) (width height : UInt16) (size : UInt8) : Cursor → List UInt8 → List CharCall
  | _, [] => []
  | cur, num :: p =>
    -- from ' ' to '~'
    if num ≤ 0x7e ∧ num ≥ 0x20 then
      let cur := cur.wrap x0 width size
      if cur.y ≥ height then []
      else ⟨cur.x, cur.y, num, size, 0⟩ ::
        showStringFrom x0 width height size ⟨cur.x + (size / 2).toUInt16, cur.y⟩ p
    else []

/-- The characters `LCD_ShowString` draws, in order. -/
def lcdShowString (x y width height : UInt16) (size : UInt8) (p : List UInt8) : List CharCall :=
  showStringFrom x.toUInt8 (width + x) (height + y) size ⟨x, y⟩ p

/-! ## The intended layout -/

/-- A start, a window and a font; all sums fit into 16 bits. -/
structure Window where
  x : UInt16
  y : UInt16
  width : UInt16
  height : UInt16
  size : UInt8
  width_pos : 1 ≤ width.toNat
  height_pos : 1 ≤ height.toNat
  font : size = 12 ∨ size = 16 ∨ size = 24 ∨ size = 32
  x_fits : x.toNat + width.toNat + size.toNat ≤ 65535
  y_fits : y.toNat + height.toNat + size.toNat ≤ 65535

structure Text where
  chars : List UInt8
  printable : ∀ num ∈ chars, num ≤ 0x7e ∧ num ≥ 0x20

namespace Window
variable (w : Window)

/-- The width of a character. -/
def advance : ℕ := w.size.toNat / 2

/-- The characters of one line. -/
def columns : ℕ := w.width.toNat ⌈/⌉ w.advance

/-- Where character `k` belongs: its column, its row, and the character. -/
def place (k : ℕ) (num : UInt8) : ℕ × ℕ × UInt8 :=
  (w.x.toNat + k % w.columns * w.advance, w.y.toNat + k / w.columns * w.size.toNat, num)

/-- The characters from the `n`-th on whose rows are in the window. -/
def layoutFrom (n : ℕ) (p : List UInt8) : List (ℕ × ℕ × UInt8) :=
  (p.mapIdx fun k num => w.place (n + k) num).filter fun q => q.2.1 < w.y.toNat + w.height.toNat

end Window

def CharCall.placed (c : CharCall) : ℕ × ℕ × UInt8 := (c.x.toNat, c.y.toNat, c.num)

/-- The text is drawn where it belongs: every line begins in the same column. -/
def LaysOut (w : Window) (t : Text) : Prop :=
  (lcdShowString w.x w.y w.width w.height w.size t.chars).map CharCall.placed = w.layoutFrom 0 t.chars

namespace Window
variable {w : Window}

theorem size_bounds : 12 ≤ w.size.toNat ∧ w.size.toNat ≤ 32 := by
  rcases w.font with h | h | h | h <;> rw [h] <;> decide

theorem advance_pos : 0 < w.advance := by
  have h := w.size_bounds
  unfold advance
  omega

theorem advance_le : w.advance ≤ w.size.toNat := Nat.div_le_self _ _

/-- A line holds the characters that start inside the window. -/
theorem columns_le_iff {j : ℕ} : w.columns ≤ j ↔ w.width.toNat ≤ j * w.advance := by
  rw [columns, ceilDiv_le_iff_le_mul advance_pos, Nat.mul_comm]

theorem columns_pos : 0 < w.columns := by
  by_contra h
  have hle : w.width.toNat ≤ 0 * w.advance := columns_le_iff.1 (Nat.le_of_not_lt h)
  have hpos := w.width_pos
  omega

theorem column_lt {j : ℕ} (hj : j ≤ w.columns) : j * w.advance < w.width.toNat + w.advance := by
  cases j with
  | zero =>
    have h := w.width_pos
    omega
  | succ j =>
    have hlt : ¬ w.width.toNat ≤ j * w.advance := fun h => by
      have := columns_le_iff.2 h
      omega
    rw [Nat.succ_mul]
    omega

theorem layoutFrom_cons (n : ℕ) (num : UInt8) (p : List UInt8) : w.layoutFrom n (num :: p) =
    if (w.place n num).2.1 < w.y.toNat + w.height.toNat then w.place n num :: w.layoutFrom (n + 1) p
    else w.layoutFrom (n + 1) p := by
  simp [layoutFrom, List.mapIdx_cons, List.filter_cons, Nat.add_assoc, Nat.add_comm 1]

/-- Character `j` of line `r`. -/
theorem place_line {r j : ℕ} (hj : j < w.columns) (num : UInt8) : w.place (r * w.columns + j) num =
    (w.x.toNat + j * w.advance, w.y.toNat + r * w.size.toNat, num) := by
  have hmod : (r * w.columns + j) % w.columns = j := Nat.mul_add_mod_of_lt hj
  have hdiv : (r * w.columns + j) / w.columns = r := by
    rw [Nat.add_comm, Nat.add_mul_div_right _ _ columns_pos, Nat.div_eq_of_lt hj, Nat.zero_add]
  rw [place, hmod, hdiv]

theorem layoutFrom_line {r j : ℕ} (hj : j < w.columns) (hr : r * w.size.toNat < w.height.toNat)
    (num : UInt8) (p : List UInt8) : w.layoutFrom (r * w.columns + j) (num :: p) =
      (w.x.toNat + j * w.advance, w.y.toNat + r * w.size.toNat, num) ::
        w.layoutFrom (r * w.columns + (j + 1)) p := by
  rw [layoutFrom_cons, place_line hj, if_pos (Nat.add_lt_add_left hr _), Nat.add_assoc]

/-- Below the window nothing is drawn. -/
theorem layoutFrom_below {r n : ℕ} (hr : w.height.toNat ≤ r * w.size.toNat)
    (hn : r * w.columns ≤ n) (p : List UInt8) : w.layoutFrom n p = [] := by
  rw [layoutFrom, List.filter_eq_nil_iff]
  intro q hq hlt
  obtain ⟨k, hk, rfl⟩ := List.mem_mapIdx.1 hq
  have hdiv : r ≤ (n + k) / w.columns := (Nat.le_div_iff_mul_le columns_pos).2 (by omega)
  have hrow : r * w.size.toNat ≤ (n + k) / w.columns * w.size.toNat := Nat.mul_le_mul_right _ hdiv
  have habove : w.y.toNat + (n + k) / w.columns * w.size.toNat < w.y.toNat + w.height.toNat :=
    of_decide_eq_true hlt
  omega

/-- The cursor after `j` characters of line `r`. -/
structure IsAt (w : Window) (r j : ℕ) (cur : Cursor) : Prop where
  column : cur.x.toNat = w.x.toNat + j * w.advance
  row : cur.y.toNat = w.y.toNat + r * w.size.toNat

theorem right_toNat : (w.width + w.x).toNat = w.width.toNat + w.x.toNat := by
  have h := w.x_fits
  rw [UInt16.toNat_add]
  omega

theorem bottom_toNat : (w.height + w.y).toNat = w.height.toNat + w.y.toNat := by
  have h := w.y_fits
  rw [UInt16.toNat_add]
  omega

theorem isAt_start : w.IsAt 0 0 ⟨w.x, w.y⟩ := ⟨by simp, by simp⟩

theorem isAt_next {r j : ℕ} {cur : Cursor} (h : w.IsAt r j cur) (hj : j < w.columns) :
    w.IsAt r (j + 1) ⟨cur.x + (w.size / 2).toUInt16, cur.y⟩ := by
  refine ⟨?_, h.row⟩
  have hlt : (j + 1) * w.advance < w.width.toNat + w.advance := column_lt hj
  have hle : w.advance ≤ w.size.toNat := advance_le
  have hfit := w.x_fits
  have hadvance : (w.size / 2).toUInt16.toNat = w.advance := by
    rw [UInt8.toNat_toUInt16, UInt8.toNat_div]
    rfl
  rw [UInt16.toNat_add, h.column, hadvance]
  rw [Nat.succ_mul] at hlt ⊢
  omega

/-- The cursor is at the right edge after a whole line. -/
theorem atEdge_iff {r j : ℕ} {cur : Cursor} (h : w.IsAt r j cur) :
    cur.x ≥ w.width + w.x ↔ w.columns ≤ j := by
  rw [ge_iff_le, UInt16.le_iff_toNat_le, right_toNat, h.column, columns_le_iff]
  omega

theorem wrap_stays {x0 : UInt8} {r j : ℕ} {cur : Cursor} (h : w.IsAt r j cur) (hj : j < w.columns) :
    cur.wrap x0 (w.width + w.x) w.size = cur :=
  if_neg fun hge => Nat.not_le_of_lt hj ((atEdge_iff h).1 hge)

theorem wrap_moves {x0 : UInt8} {r j : ℕ} {cur : Cursor} (h : w.IsAt r j cur) (hj : w.columns ≤ j) :
    cur.wrap x0 (w.width + w.x) w.size = ⟨x0.toUInt16, cur.y + w.size.toUInt16⟩ :=
  if_pos ((atEdge_iff h).2 hj)

/-- The row of the next line. -/
theorem nextRow_toNat {r j : ℕ} {cur : Cursor} (h : w.IsAt r j cur)
    (hr : r * w.size.toNat < w.height.toNat) :
    (cur.y + w.size.toUInt16).toNat = w.y.toNat + (r + 1) * w.size.toNat := by
  have hfit := w.y_fits
  rw [UInt16.toNat_add, h.row, UInt8.toNat_toUInt16, Nat.succ_mul]
  omega

theorem below_iff {y : UInt16} {r : ℕ} (hy : y.toNat = w.y.toNat + r * w.size.toNat) :
    y ≥ w.height + w.y ↔ w.height.toNat ≤ r * w.size.toNat := by
  rw [ge_iff_le, UInt16.le_iff_toNat_le, bottom_toNat, hy]
  omega

end Window

open Window

variable {w : Window} {x0 : UInt8}

theorem showStringFrom_cons {width height : UInt16} {size : UInt8} {cur : Cursor} {num : UInt8}
    {p : List UInt8} (hnum : num ≤ 0x7e ∧ num ≥ 0x20) : showStringFrom x0 width height size cur (num :: p) =
      if (cur.wrap x0 width size).y ≥ height then []
      else ⟨(cur.wrap x0 width size).x, (cur.wrap x0 width size).y, num, size, 0⟩ ::
        showStringFrom x0 width height size
          ⟨(cur.wrap x0 width size).x + (size / 2).toUInt16, (cur.wrap x0 width size).y⟩ p := by
  rw [showStringFrom, if_pos hnum]

/-- Within a line a character is drawn at the cursor. -/
theorem showStringFrom_line {r j : ℕ} {cur : Cursor} {num : UInt8} {p : List UInt8}
    (hnum : num ≤ 0x7e ∧ num ≥ 0x20) (hat : w.IsAt r j cur) (hj : j < w.columns)
    (hr : r * w.size.toNat < w.height.toNat) :
    showStringFrom x0 (w.width + w.x) (w.height + w.y) w.size cur (num :: p) =
      ⟨cur.x, cur.y, num, w.size, 0⟩ :: showStringFrom x0 (w.width + w.x) (w.height + w.y) w.size
        ⟨cur.x + (w.size / 2).toUInt16, cur.y⟩ p := by
  have hin : ¬ cur.y ≥ w.height + w.y := fun h => Nat.not_le_of_lt hr ((below_iff hat.row).1 h)
  rw [showStringFrom_cons hnum, wrap_stays hat hj, if_neg hin]

/-- At the end of the last line nothing more is drawn. -/
theorem showStringFrom_below {r : ℕ} {cur : Cursor} {num : UInt8} {p : List UInt8}
    (hnum : num ≤ 0x7e ∧ num ≥ 0x20) (hat : w.IsAt r w.columns cur)
    (hr : r * w.size.toNat < w.height.toNat) (hbelow : w.height.toNat ≤ (r + 1) * w.size.toNat) :
    showStringFrom x0 (w.width + w.x) (w.height + w.y) w.size cur (num :: p) = [] := by
  rw [showStringFrom_cons hnum, wrap_moves hat (Nat.le_refl _),
    if_pos ((below_iff (nextRow_toNat hat hr)).2 hbelow)]

/-- At the end of another line the next character is drawn in column `x0`, one row below. -/
theorem showStringFrom_wrap {r : ℕ} {cur : Cursor} {num : UInt8} {p : List UInt8}
    (hnum : num ≤ 0x7e ∧ num ≥ 0x20) (hat : w.IsAt r w.columns cur)
    (hr : r * w.size.toNat < w.height.toNat) (hin : ¬ w.height.toNat ≤ (r + 1) * w.size.toNat) :
    showStringFrom x0 (w.width + w.x) (w.height + w.y) w.size cur (num :: p) =
      ⟨x0.toUInt16, cur.y + w.size.toUInt16, num, w.size, 0⟩ ::
        showStringFrom x0 (w.width + w.x) (w.height + w.y) w.size
          ⟨x0.toUInt16 + (w.size / 2).toUInt16, cur.y + w.size.toUInt16⟩ p := by
  have hrow : ¬ cur.y + w.size.toUInt16 ≥ w.height + w.y :=
    fun h => hin ((below_iff (nextRow_toNat hat hr)).1 h)
  rw [showStringFrom_cons hnum, wrap_moves hat (Nat.le_refl _), if_neg hrow]

/-- **What is drawn from line `r`, character `j` on** is the layout, unless a line begins in a column
that was cut off. -/
theorem showStringFrom_iff {p : List UInt8} (hp : ∀ num ∈ p, num ≤ 0x7e ∧ num ≥ 0x20) {r j : ℕ}
    {cur : Cursor} (hat : w.IsAt r j cur) (hj : j ≤ w.columns)
    (hr : r * w.size.toNat < w.height.toNat) :
    (showStringFrom x0 (w.width + w.x) (w.height + w.y) w.size cur p).map CharCall.placed =
        w.layoutFrom (r * w.columns + j) p ↔
      x0.toNat = w.x.toNat ∨ j + p.length ≤ w.columns ∨ w.height.toNat ≤ (r + 1) * w.size.toNat := by
  induction p generalizing r j cur with
  | nil => simp [showStringFrom, layoutFrom, hj]
  | cons num p ih =>
    have hnum := hp num List.mem_cons_self
    replace ih := @ih fun num h => hp num (List.mem_cons_of_mem _ h)
    rw [List.length_cons]
    rcases Nat.lt_or_ge j w.columns with hlt | hge
    · -- the line goes on
      rw [showStringFrom_line hnum hat hlt hr, layoutFrom_line hlt hr, List.map_cons, CharCall.placed,
        hat.column, hat.row, List.cons_inj_right, ih (isAt_next hat hlt) hlt hr]
      omega
    · -- a new line begins
      obtain rfl : j = w.columns := Nat.le_antisymm hj hge
      have hindex : r * w.columns + w.columns = (r + 1) * w.columns + 0 := (Nat.succ_mul _ _).symm
      rw [hindex]
      by_cases hbelow : w.height.toNat ≤ (r + 1) * w.size.toNat
      · rw [showStringFrom_below hnum hat hr hbelow, layoutFrom_below hbelow (Nat.le_add_right _ _)]
        simp [hbelow]
      · have hrow := nextRow_toNat hat hr
        have hr' : (r + 1) * w.size.toNat < w.height.toNat := Nat.lt_of_not_le hbelow
        rw [showStringFrom_wrap hnum hat hr hbelow, layoutFrom_line columns_pos hr', Nat.zero_mul,
          Nat.add_zero, List.map_cons, CharCall.placed, hrow, UInt8.toNat_toUInt16]
        by_cases hx : x0.toNat = w.x.toNat
        · have hstart : w.IsAt (r + 1) 0 ⟨x0.toUInt16, cur.y + w.size.toUInt16⟩ :=
            ⟨by rw [UInt8.toNat_toUInt16, hx, Nat.zero_mul, Nat.add_zero], hrow⟩
          rw [hx, List.cons_inj_right, ih (isAt_next hstart columns_pos) columns_pos hr']
          exact iff_of_true (Or.inl hx) (Or.inl rfl)
        · refine iff_of_false (fun h => hx ?_) (by omega)
          exact congrArg Prod.fst (List.cons.inj h).1

/-- **The exact condition**: one of the first 256 columns, one line of text, or a window of one line. -/
theorem laysOut_iff (w : Window) (t : Text) : LaysOut w t ↔
    w.x.toNat ≤ 255 ∨ t.chars.length ≤ w.columns ∨ w.height.toNat ≤ w.size.toNat := by
  have hstart := @showStringFrom_iff w w.x.toUInt8 _ t.printable 0 0 _ isAt_start (Nat.zero_le _)
    (by rw [Nat.zero_mul]; exact w.height_pos)
  rw [Nat.zero_mul, Nat.zero_add, Nat.zero_add, Nat.zero_add, Nat.one_mul, UInt16.toNat_toUInt8] at hstart
  rw [LaysOut, lcdShowString, hstart]
  omega

/-- Two characters a line from column 300: the third is drawn in column 44. -/
theorem not_laysOut : ¬ LaysOut
    ⟨300, 100, 16, 64, 16, by decide, by decide, .inr (.inl rfl), by decide, by decide⟩
    ⟨[0x41, 0x42, 0x43], by simp⟩ := by
  unfold LaysOut
  decide

end DataRecorder.Lcd
