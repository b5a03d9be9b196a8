/-
  The scan directions (`LCD_Scan_Dir`).

  A direction names the way a line of pixels runs, and the way the lines follow one
  another: `L2R_U2D` is from left to right, line below line.  It is meant as the
  screen is looked at, in either orientation.

  * `scanRegval_bits`: the bits written for a direction;
  * `scanned`: the window and the order in which it is filled, after any direction;
  * `scanDir_sweeps`: pixels written from the corner on run over the screen in the
    direction asked for.
-/
import DataRecorder.Lcd.Screen
import Mathlib.Data.Nat.Bitwise

namespace DataRecorder.Lcd

open Base

/-- Place `k` of a screen of `w` times `h` points, in the order of the direction `d`. -/
def sweep (d : UInt8) (w h k : ℕ) : ℕ × ℕ :=
  match d with
  | 0 => (k % w, k / w)
  | 1 => (k % w, h - 1 - k / w)
  | 2 => (w - 1 - k % w, k / w)
  | 3 => (w - 1 - k % w, h - 1 - k / w)
  | 4 => (k / h, k % h)
  | 5 => (w - 1 - k / h, k % h)
  | 6 => (k / h, h - 1 - k % h)
  | _ => (w - 1 - k / h, h - 1 - k % h)

/-! ## The order bits -/

/-- Exchanged, mirrored in the columns, mirrored in the pages. -/
structure Order where
  mv : Bool
  mx : Bool
  my : Bool
  deriving DecidableEq, Repr

/-- The order of a direction, looked at as the frame memory lies. -/
def Order.ofDir (d : UInt8) : Order := ⟨d ≥ 4, d = 2 ∨ d = 3 ∨ d = 5 ∨ d = 7, d = 1 ∨ d = 3 ∨ d = 6 ∨ d = 7⟩

def Order.ofBits (r : UInt16) : Order := ⟨r.toNat.testBit 5, r.toNat.testBit 6, r.toNat.testBit 7⟩

theorem scanRegval_bits (chip : Chip) {dir d : UInt8} (hdir : dir = 0 ∨ dir = 1) (hd : d < 8) :
    Order.ofBits (scanRegval chip.id dir d) = .ofDir (if Turned chip dir then turned d else d) := by
  have hall : ∀ n < 8, let d := UInt8.ofNat n
      Order.ofBits (scanRegval chip.id dir d) = .ofDir (if Turned chip dir then turned d else d) := by
    rcases hdir with rfl | rfl <;> cases chip <;> decide
  have hlt : d.toNat < 8 := UInt8.lt_iff_toNat_lt.1 hd
  have := hall d.toNat hlt
  rwa [UInt8.ofNat_toNat] at this

/-- The length of a line in memory, and the number of lines. -/
def Order.span (o : Order) (chip : Chip) : ℕ × ℕ :=
  if o.mv then (chip.pages, chip.columns) else (chip.columns, chip.pages)

/-- The cell of place `p` of the whole memory. -/
def Order.cell (o : Order) (chip : Chip) (p : ℕ × ℕ) : ℕ × ℕ :=
  let q := if o.mv then p.swap else p
  (if o.mx then chip.columns - 1 - q.1 else q.1, if o.my then chip.pages - 1 - q.2 else q.2)

/-! ## The window after a direction -/

section
variable {dev : LcdDev} {c : Controller} {chip : Chip}

theorem and_bit_ne_zero (r : UInt16) : r &&& 0x20 ≠ 0 ↔ r.toNat.testBit 5 := by
  have hand : (r &&& 0x20).toNat = (r.toNat.testBit 5).toNat * 2 ^ 5 := by
    rw [UInt16.toNat_and]
    exact Nat.and_two_pow r.toNat 5
  rw [Ne, ← UInt16.toNat_inj, hand]
  cases r.toNat.testBit 5 <;> simp

/-- Width and height after a direction, where they are exchanged if needed. -/
theorem oriented_size (h : Known dev chip) (hssd : chip ≠ .ssd1963) (r : UInt16) :
    ((dev.oriented r).width.toNat, (dev.oriented r).height.toNat) =
      if r.toNat.testBit 5 then (chip.pages, chip.columns) else (chip.columns, chip.pages) := by
  have hid : dev.id ≠ 0x1963 := by
    rw [h.id]
    cases chip <;> first | decide | exact absurd rfl hssd
  have hlong := columns_lt_pages hssd
  have hsize : (dev.width.toNat, dev.height.toNat) = (chip.pages, chip.columns) ∨
      (dev.width.toNat, dev.height.toNat) = (chip.columns, chip.pages) := by
    rw [h.width, h.height, screenSize]
    split_ifs <;> simp
  by_cases hbit : r.toNat.testBit 5
  · rw [LcdDev.oriented, if_neg hid, if_pos ((and_bit_ne_zero r).2 hbit), if_pos hbit]
    rcases hsize with hs | hs <;> obtain ⟨hw, hh⟩ := Prod.mk.inj hs
    · rw [if_neg fun hlt => by rw [UInt16.lt_iff_toNat_lt] at hlt; omega, hw, hh]
    · rw [if_pos (by rw [UInt16.lt_iff_toNat_lt]; omega)]
      exact Prod.ext hh hw
  · rw [LcdDev.oriented, if_neg hid, if_neg fun hset => hbit ((and_bit_ne_zero r).1 hset), if_neg hbit]
    rcases hsize with hs | hs <;> obtain ⟨hw, hh⟩ := Prod.mk.inj hs
    · rw [if_pos (by rw [gt_iff_lt, UInt16.lt_iff_toNat_lt]; omega)]
      exact Prod.ext hh hw
    · rw [if_neg fun hgt => by rw [gt_iff_lt, UInt16.lt_iff_toNat_lt] at hgt; omega, hw, hh]

/-- The edges from the corner on: all of the frame memory. -/
theorem fullEdges (h : Known dev chip) (r : UInt16) :
    let dev' := dev.oriented r
    let edge := setEdges dev' chip (windowEdges chip dev.dir dev'.width.toNat dev'.height.toNat) 0 0
    let size := if chip ≠ .ssd1963 ∧ r.toNat.testBit 5 then (chip.pages, chip.columns) else (chip.columns, chip.pages)
    edge .sc = 0 ∧ edge .ec + 1 = size.1 ∧ edge .sp = 0 ∧ edge .ep + 1 = size.2 := by
  intro dev' edge size
  have hdir : dev'.dir = dev.dir := by
    rcases oriented_cases dev r with heq | heq <;> simp only [dev', heq]
    rfl
  have hpos := chip.size_pos
  by_cases hssd : chip = .ssd1963
  · have hdev : dev' = dev := if_pos (h.id.trans (by rw [hssd]; rfl))
    have hsize : size = (chip.columns, chip.pages) := if_neg fun hm => hm.1 hssd
    have hwidth := h.width
    have hheight := h.height
    simp only [edge, setEdges, if_pos hssd, hdev, hsize, hwidth, hheight, screenSize]
    rcases h.dir with hd | hd
    · have hturned : Turned chip dev.dir := .inr ⟨hd, hssd⟩
      rw [if_pos hd, if_pos hturned]
      exact ⟨rfl, Nat.sub_add_cancel hpos.1, rfl, Nat.sub_add_cancel hpos.2⟩
    · have hturned : ¬ Turned chip dev.dir := by simp [Turned, hd, hssd]
      rw [if_neg (by rw [hd]; decide), if_neg hturned]
      exact ⟨rfl, Nat.sub_add_cancel hpos.1, rfl, Nat.sub_add_cancel hpos.2⟩
  · have hsize : (dev'.width.toNat, dev'.height.toNat) = size := by
      simp only [size, hssd, ne_eq, not_false_eq_true, true_and]
      exact oriented_size h hssd r
    have hlast := windowEdges_last hssd dev.dir dev'.width.toNat dev'.height.toNat
    have hpos : 0 < size.1 ∧ 0 < size.2 := by
      simp only [size]
      split_ifs
      · exact hpos.symm
      · exact hpos
    have hfar (e : Edge) (he : e = .ec ∨ e = .ep) :
        edge e = windowEdges chip dev.dir dev'.width.toNat dev'.height.toNat e := by
      simp only [edge, setEdges, if_neg hssd]
      rcases he with rfl | rfl <;> rfl
    rw [hfar _ (.inl rfl), hfar _ (.inr rfl), hlast.1, hlast.2, ← hsize]
    rw [← hsize] at hpos
    simp only [edge, setEdges, if_neg hssd]
    exact ⟨rfl, Nat.sub_add_cancel hpos.1, rfl, Nat.sub_add_cancel hpos.2⟩

theorem span_whole {a : Controller} {edge : Edge → ℕ} (hedge : a.edge = edge)
    (h : edge .sc = 0 ∧ edge .sp = 0)
    (hfar : (edge .ec + 1, edge .ep + 1) = if a.chip ≠ .ssd1963 ∧ a.mv then (a.chip.pages, a.chip.columns)
      else (a.chip.columns, a.chip.pages)) :
    a.span = (Order.ofBits a.order).span a.chip := by
  have hmv : (Order.ofBits a.order).mv = a.mv := rfl
  rw [Controller.span, Order.span, hmv, hedge, h.1, h.2]
  simp only [Nat.sub_zero, hfar]
  by_cases hssd : a.chip = .ssd1963 <;> by_cases hmv : a.mv = true <;> simp [hssd, hmv]

theorem cell_whole {a : Controller} {edge : Edge → ℕ} (hedge : a.edge = edge) (h : edge .sc = 0 ∧ edge .sp = 0)
    (hfar : a.chip = .ssd1963 → edge .ec = a.chip.columns - 1 ∧ edge .ep = a.chip.pages - 1) (p : ℕ × ℕ) :
    a.cell p = (Order.ofBits a.order).cell a.chip p := by
  have hmv : (Order.ofBits a.order).mv = a.mv := rfl
  have hmx : (Order.ofBits a.order).mx = a.mx := rfl
  have hmy : (Order.ofBits a.order).my = a.my := rfl
  rw [Order.cell, hmv, hmx, hmy]
  by_cases hssd : a.chip = .ssd1963
  · rw [Controller.cell_of_ssd1963 hssd, hedge, h.1, h.2, (hfar hssd).1, (hfar hssd).2]
    simp
  · rw [Controller.cell_of_ne hssd, hedge, h.1, h.2]
    simp only [Nat.zero_add]
    rfl

/-- **After any direction** the window is the whole frame memory, filled in the order of its bits. -/
theorem scanned (h : Known dev c.chip) (d : UInt8) :
    let dev' := (lcdScanDir dev d).1
    let r := scanRegval c.chip.id dev.dir d
    ∃ a : Controller, c.exec ((lcdScanDir dev d).2 ++ (lcdSetCursor dev' 0 0 ++ lcdWriteRAMPrepare dev')) = a ∧
      a.chip = c.chip ∧ a.gram = c.gram ∧ a.pos = (0, 0) ∧ (∀ n, a.chip.slot a.index n = .pixel) ∧
      a.span = (Order.ofBits r).span c.chip ∧ ∀ p, a.cell p = (Order.ofBits r).cell c.chip p := by
  intro dev' r
  have hsize := screenSize_pos c.chip dev.dir
  rw [← h.width, ← h.height] at hsize
  obtain ⟨hdev, i, n, hexec⟩ := exec_scanDir h.toSpeaks hsize.1 hsize.2 d
  have hdev : dev' = dev.oriented r := hdev
  have hspeaks : Speaks dev' c.chip := hdev ▸ h.toSpeaks.oriented r
  have hsize' : 0 < dev'.width.toNat ∧ 0 < dev'.height.toNat := by
    rw [hdev]
    rcases oriented_cases dev r with heq | heq <;> rw [heq]
    · exact hsize
    · exact hsize.symm
  obtain ⟨i', n', hcursor⟩ := exec_setEdges (x := 0) (y := 0)
    (c := { c with
      index := i, argc := n, pos := (0, 0), order := r
      edge := windowEdges c.chip dev.dir (dev.oriented r).width.toNat (dev.oriented r).height.toNat })
    hspeaks hsize'.1 hsize'.2
  obtain ⟨hsc, hec, hsp, hep⟩ := fullEdges h r
  rw [← hdev] at hcursor hsc hec hsp hep
  have hpixel (n : ℕ) : c.chip.slot dev'.wramcmd n = .pixel := by
    have hcmd : dev'.wramcmd = (lcdCommands c.chip dev'.dir).1 := congrArg (·.1) hspeaks.commands
    rw [hcmd]
    rcases hspeaks.dir with hdir | hdir <;> rw [hdir] <;> cases c.chip <;> rfl
  refine ⟨_, rfl, ?_⟩
  rw [Controller.exec_append, Controller.exec_append, hexec, ← hdev, hcursor]
  refine ⟨rfl, rfl, rfl, hpixel, span_whole rfl ⟨hsc, hsp⟩ (Prod.ext hec hep), fun p => ?_⟩
  refine cell_whole rfl ⟨hsc, hsp⟩ (fun hssd => ?_) p
  have hssd : c.chip = .ssd1963 := hssd
  rw [if_neg fun hm => hm.1 hssd] at hec hep
  exact ⟨Nat.eq_sub_of_add_eq hec, Nat.eq_sub_of_add_eq hep⟩

/-! ## The sweep -/

theorem dir_cases {d : UInt8} (hd : d < 8) :
    d = 0 ∨ d = 1 ∨ d = 2 ∨ d = 3 ∨ d = 4 ∨ d = 5 ∨ d = 6 ∨ d = 7 := by
  have hlt : d.toNat < 8 := UInt8.lt_iff_toNat_lt.1 hd
  simp only [← UInt8.toNat_inj]
  simp
  omega

/-- The sweep, on the frame memory, is the order of the direction. -/
theorem place_sweep {dir d : UInt8} (hd : d < 8) {k : ℕ} (hk : k < chip.columns * chip.pages) :
    let o := Order.ofDir (if Turned chip dir then turned d else d)
    place chip dir (sweep d (screenSize chip dir).1 (screenSize chip dir).2 k) =
      o.cell chip (nth (o.span chip).1 k) := by
  have hpage : k / chip.columns < chip.pages := Nat.div_lt_of_lt_mul hk
  have hpage' : k % chip.pages < chip.pages := Nat.mod_lt _ chip.size_pos.2
  intro o
  by_cases hturned : Turned chip dir
  · -- the screen lies across: its lines run along the pages, which it counts from the bottom
    have hline : chip.pages - 1 - (chip.pages - 1 - k % chip.pages) = k % chip.pages :=
      Nat.sub_sub_self (Nat.le_sub_one_of_lt hpage')
    have hcross : chip.pages - 1 - (chip.pages - 1 - k / chip.columns) = k / chip.columns :=
      Nat.sub_sub_self (Nat.le_sub_one_of_lt hpage)
    simp only [o, place, screenSize, if_pos hturned]
    rcases dir_cases hd with rfl | rfl | rfl | rfl | rfl | rfl | rfl | rfl
    · rfl
    · rfl
    · exact Prod.ext rfl hline
    · exact Prod.ext rfl hline
    · rfl
    · exact Prod.ext rfl hcross
    · rfl
    · exact Prod.ext rfl hcross
  · simp only [o, place, screenSize, if_neg hturned]
    rcases dir_cases hd with rfl | rfl | rfl | rfl | rfl | rfl | rfl | rfl <;> rfl

theorem span_mul (o : Order) (chip : Chip) : (o.span chip).1 * (o.span chip).2 = chip.columns * chip.pages := by
  rw [Order.span]
  split_ifs
  · exact Nat.mul_comm _ _
  · rfl

/-- Two places of the whole memory have two cells. -/
theorem cell_injective (o : Order) {i j : ℕ} (hi : i < (o.span chip).1 * (o.span chip).2)
    (hj : j < (o.span chip).1 * (o.span chip).2)
    (hij : o.cell chip (nth (o.span chip).1 i) = o.cell chip (nth (o.span chip).1 j)) : i = j := by
  have hpos := chip.size_pos
  have hw : 0 < (o.span chip).1 := by
    rw [Order.span]
    split_ifs
    · exact hpos.2
    · exact hpos.1
  have hmod (k : ℕ) : k % (o.span chip).1 < (o.span chip).1 := Nat.mod_lt _ hw
  have hdiv {k : ℕ} (hk : k < (o.span chip).1 * (o.span chip).2) : k / (o.span chip).1 < (o.span chip).2 :=
    Nat.div_lt_of_lt_mul hk
  refine nth_injective (w := (o.span chip).1) ?_
  have h₁ := hmod i
  have h₂ := hmod j
  have h₃ := hdiv hi
  have h₄ := hdiv hj
  rw [nth, nth] at *
  obtain ⟨mv, mx, my⟩ := o
  obtain ⟨hcol, hpage⟩ := Prod.ext_iff.1 hij
  clear hij hi hj hmod hdiv
  generalize i % _ = a at *
  generalize j % _ = b at *
  generalize i / _ = a' at *
  generalize j / _ = b' at *
  cases mv <;> cases mx <;> cases my <;> simp [Order.span, Order.cell] at * <;> omega

/-- **The scan direction** is the one asked for, on every controller and in both orientations: the pixels
written from the corner on run over the screen in that order, and over nothing else. -/
theorem scanDir_sweeps (dev₀ : LcdDev) (c₀ : Controller) (hid : dev₀.id = c₀.chip.id) {dir d : UInt8}
    (hdir : dir = 0 ∨ dir = 1) (hd : d < 8) {l : List UInt16} (hl : l.length ≤ c₀.chip.columns * c₀.chip.pages) :
    let dev := (lcdDisplayDir dev₀ dir).1
    let c := c₀.exec (lcdDisplayDir dev₀ dir).2
    let dev' := (lcdScanDir dev d).1
    let c' := c.exec ((lcdScanDir dev d).2 ++ (lcdSetCursor dev' 0 0 ++ lcdWriteRAMPrepare dev') ++ l.map .ram)
    let spot := fun k => place c₀.chip dir (sweep d (screenSize c₀.chip dir).1 (screenSize c₀.chip dir).2 k)
    (∀ k, ∀ hk : k < l.length, c'.gram (spot k) = l[k]) ∧
      ∀ cell, (∀ k < l.length, cell ≠ spot k) → c'.gram cell = c.gram cell := by
  intro dev c dev' c' spot
  obtain ⟨hlaid, hchip, hready⟩ := displayDir_ready hid hdir
  have hlaid : dev = dev₀.laid dir := hlaid
  have hchip : c.chip = c₀.chip := hchip
  have hdev : dev.dir = dir := by rw [hlaid, laid_dir]
  have hknown : Known dev c.chip := hlaid ▸ hready.toKnown
  obtain ⟨a, hexec, hchip', hgram, hpos, hpixel, hspan, hcell⟩ := scanned hknown d
  have horder := scanRegval_bits c.chip hdir hd
  rw [← hdev] at horder
  rw [horder] at hspan hcell
  have hsize := span_mul (Order.ofDir (if Turned c.chip dev.dir then turned d else d)) c.chip
  have hplace {k : ℕ} (hk : k < l.length) : spot k = a.cell (nth a.span.1 k) := by
    rw [hcell, hspan, ← place_sweep hd (by rw [hchip]; omega), hdev, hchip]
  have hinj : ∀ i < a.span.1 * a.span.2, ∀ j < a.span.1 * a.span.2,
      a.cell (nth a.span.1 i) = a.cell (nth a.span.1 j) → i = j := by
    intro i hi j hj hij
    rw [hspan] at hi hj hij
    rw [hcell, hcell] at hij
    exact cell_injective _ hi hj hij
  have hlen : l.length ≤ a.span.1 * a.span.2 := by rw [hspan, hsize, hchip]; exact hl
  obtain ⟨n, q, hpixels⟩ := Controller.exec_pixels (l := l) hpixel
  have hstart : ((0, 0) : ℕ × ℕ) = nth a.span.1 0 := by simp [nth]
  have hc' : c'.gram = store a.span.1 a.span.2 a.cell l (nth a.span.1 0) c.gram := by
    rw [← hstart, ← hgram, ← hpos]
    show (c.exec _).gram = _
    rw [Controller.exec_append, hexec, hpixels]
  rw [hc']
  refine ⟨fun k hk => ?_, fun cell hmiss => ?_⟩
  · rw [hplace hk]
    have := store_hit (m := c.gram) (k := 0) (by omega) hinj hk
    simpa only [Nat.zero_add] using this
  · refine store_miss (by omega) fun k hk => ?_
    rw [Nat.zero_add, ← hplace hk]
    exact hmiss k hk

/-- A landscape screen filled from the bottom, column by column from the right: its second point. -/
theorem scanDir_sweeps_upwards :
    let dev₀ : LcdDev := ⟨0, 0, 0x5510, 0, 0, 0, 0⟩
    let c₀ : Controller := ⟨.nt35510, 0, 0, fun _ => 0, 0, (0, 0), fun _ => 0⟩
    let dev := (lcdDisplayDir dev₀ 1).1
    let dev' := (lcdScanDir dev 7).1
    ((c₀.exec (lcdDisplayDir dev₀ 1).2).exec ((lcdScanDir dev 7).2 ++
      (lcdSetCursor dev' 0 0 ++ lcdWriteRAMPrepare dev') ++ [0x1234, 0x5678].map .ram)).gram
        (place .nt35510 1 (799, 478)) = 0x5678 :=
  (scanDir_sweeps ⟨0, 0, 0x5510, 0, 0, 0, 0⟩ ⟨.nt35510, 0, 0, fun _ => 0, 0, (0, 0), fun _ => 0⟩ rfl (.inr rfl)
    (by decide : (7 : UInt8) < 8) (l := [0x1234, 0x5678]) (by decide)).1 1 (by decide)

end

end DataRecorder.Lcd
