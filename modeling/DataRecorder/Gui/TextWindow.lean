/-
  The text window of the file browser: `text_win_create`
  (`GUI_APP/WIN/file_win.c`).

  The file is read into a static buffer, and the text area shows the buffer as a
  string.  Neither the number of bytes read nor a failure is looked at, nothing is
  written after the last byte read, and the buffer is never cleared.

  * `shown_iff`: the window shows the file if and only if the buffer holds a NUL
    right after it;
  * `shown_iff_covers`: among files without NULs, if and only if no file that was
    viewed before is longer.
-/
import DataRecorder.Base.Memory
import Mathlib.Data.List.Induction

namespace DataRecorder.TextWindow

open Base

/-- What `open` and `read` do for the file that is viewed. -/
inductive Viewing where
  | openFailed
  /-- `read` fails after it has stored some bytes -/
  | readFailed (stored : List UInt8)
  | file (content : List UInt8)
  deriving DecidableEq

/-- `sizeof(writebuffer)`. -/
def writebufferSize : ℕ := 4096

namespace Viewing

/-- The bytes that `read` stores in the buffer. -/
def stored : Viewing → List UInt8
  | openFailed => []
  | readFailed bytes => bytes.take writebufferSize
  | file content => content.take writebufferSize

/-- What there is to show. -/
def content : Viewing → List UInt8
  | openFailed | readFailed _ => []
  | file content => content

end Viewing

/-- `text_win_create`, from what `writebuffer` holds: what it holds afterwards, and the string
passed to `lv_ta_set_text`, or `none` if it does not end within the buffer. -/
def textWinCreate (writebuffer : ℕ → UInt8) (v : Viewing) : (ℕ → UInt8) × Option (List UInt8) :=
  let writebuffer := blit writebuffer 0 v.stored
  (writebuffer, cString writebuffer 0 writebufferSize)

/-- The buffer after the viewings `vs`. -/
def viewed (vs : List Viewing) : ℕ → UInt8 := vs.foldl (fun b v => (textWinCreate b v).1) fun _ => 0

theorem viewed_snoc (vs : List Viewing) (v : Viewing) :
    viewed (vs ++ [v]) = blit (viewed vs) 0 v.stored := by
  rw [viewed, List.foldl_append]
  rfl

section
variable (b : ℕ → UInt8) (v : Viewing)

/-- The window shows what was viewed: a string within the buffer, of bytes of the file only, and,
if the file has no NUL, all that fit in front of the terminator. -/
structure Shown : Prop where
  inside : (textWinCreate b v).2.isSome
  fresh : ∀ text, (textWinCreate b v).2 = some text → text <+: v.content
  whole : 0 ∉ v.content → (textWinCreate b v).2 = some (v.content.take (writebufferSize - 1))

/-- The buffer `b` ends the string where the file ends. -/
def Clear : Viewing → Prop
  | .openFailed => b 0 = 0
  | .readFailed bytes => bytes.head?.getD (b 0) = 0
  | .file content =>
    0 ∈ content.take writebufferSize ∨ content.length < writebufferSize ∧ b content.length = 0

variable {b v}

theorem text_eq_some_iff {text : List UInt8} : (textWinCreate b v).2 = some text ↔
    0 ∉ text ∧ text.length < writebufferSize ∧ slice (blit b 0 v.stored) 0 text.length = text ∧
      blit b 0 v.stored text.length = 0 := by
  rw [textWinCreate, cString_eq_some_iff, Nat.zero_add]

/-- Where nothing was read, the text has to be empty. -/
theorem shown_iff_of_failed (h : v.content = []) : Shown b v ↔ blit b 0 v.stored 0 = 0 := by
  have hempty : (textWinCreate b v).2 = some [] ↔ blit b 0 v.stored 0 = 0 := by
    rw [text_eq_some_iff]
    simp [writebufferSize]
  rw [← hempty]
  constructor
  · intro hs
    rw [hs.whole (by simp [h]), h, List.take_nil]
  · intro hs
    refine ⟨by simp [hs], ?_, ?_⟩
    · rw [hs]
      rintro text ⟨⟩
      exact List.nil_prefix
    · intro _
      rw [hs, h, List.take_nil]

section
variable {content : List UInt8}

/-- The bytes read, where the string starts. -/
theorem slice_file {k : ℕ} (h : k ≤ content.length) (h' : k ≤ writebufferSize) :
    slice (blit b 0 (Viewing.file content).stored) 0 k = content.take k := by
  have := slice_blit_inside b 0 (o := 0) (n := k) (l := (Viewing.file content).stored)
    (by simp only [Viewing.stored, List.length_take]; omega)
  rw [this, List.drop_zero, Viewing.stored, List.take_take, Nat.min_eq_left h']

/-- A NUL in the file ends the string. -/
theorem shown_of_nul (h : 0 ∈ content.take writebufferSize) : Shown b (.file content) := by
  have htext : (textWinCreate b (.file content)).2 =
      some ((content.take writebufferSize).takeWhile (· ≠ 0)) := by
    obtain ⟨h₀, rest, hrest⟩ := takeWhile_ne_eq_iff.1 ⟨h, rfl⟩
    generalize (content.take writebufferSize).takeWhile (· ≠ 0) = text at h₀ hrest ⊢
    have hlen := congrArg List.length hrest
    simp only [List.length_take, List.length_append, List.length_cons] at hlen
    have hcell : blit b 0 (Viewing.file content).stored (0 + text.length) = 0 := by
      rw [blit_add _ _ (by simp only [Viewing.stored, List.length_take]; omega)]
      simp only [Viewing.stored, hrest, List.getElem_append_right (Nat.le_refl text.length),
        Nat.sub_self, List.getElem_cons_zero]
    rw [Nat.zero_add] at hcell
    refine text_eq_some_iff.2 ⟨h₀, by omega, ?_, hcell⟩
    rw [slice_file (by omega) (by omega)]
    have hcut := congrArg (List.take text.length) hrest
    rwa [List.take_take, Nat.min_eq_left (by omega), List.take_left' rfl] at hcut
  refine ⟨by simp [htext], ?_, ?_⟩
  · rw [htext]
    rintro text ⟨⟩
    exact (List.takeWhile_prefix _).trans (List.take_prefix _ _)
  · intro hnul
    exact absurd (List.mem_of_mem_take h) hnul

theorem shown_of_clear (hlt : content.length < writebufferSize) (hb : b content.length = 0)
    (hnul : 0 ∉ content) : Shown b (.file content) := by
  have hcell : blit b 0 (Viewing.file content).stored content.length = 0 := by
    rw [blit_of_ge _ (by simp only [Viewing.stored, List.length_take]; omega), hb]
  have htext : (textWinCreate b (.file content)).2 = some content := by
    refine text_eq_some_iff.2 ⟨hnul, hlt, ?_, hcell⟩
    rw [slice_file (Nat.le_refl _) (Nat.le_of_lt hlt), List.take_length]
  refine ⟨by simp [htext], ?_, ?_⟩
  · rw [htext]
    rintro text ⟨⟩
    exact List.prefix_refl _
  · intro _
    rw [htext, Viewing.content, List.take_of_length_le (by omega)]

theorem clear_of_shown (h : Shown b (.file content)) (hnul : 0 ∉ content.take writebufferSize) :
    content.length < writebufferSize ∧ b content.length = 0 := by
  obtain ⟨text, htext⟩ := Option.isSome_iff_exists.1 h.inside
  obtain ⟨h₀, hlt, -, hcell⟩ := text_eq_some_iff.1 htext
  have hpre : text <+: content := h.fresh text htext
  rcases Nat.lt_or_eq_of_le hpre.length_le with hshort | heq
  · -- the string would end in front of a byte of the file, which is no NUL
    have hbyte : text.length < (Viewing.file content).stored.length := by
      simp only [Viewing.stored, List.length_take]
      omega
    have hget := blit_add b 0 hbyte
    rw [Nat.zero_add, hcell] at hget
    exact absurd (hget ▸ List.getElem_mem hbyte) hnul
  · rw [heq] at hlt hcell
    rw [blit_of_ge _ (by simp only [Viewing.stored, List.length_take]; omega)] at hcell
    exact ⟨hlt, hcell⟩

end

theorem shown_iff_clear : Shown b v ↔ Clear b v := by
  cases v with
  | openFailed =>
    rw [shown_iff_of_failed rfl, Clear, Viewing.stored, blit_nil]
  | readFailed bytes =>
    rw [shown_iff_of_failed rfl, Clear, Viewing.stored]
    cases bytes <;> simp [blit, writebufferSize]
  | file content =>
    constructor
    · intro h
      exact or_iff_not_imp_left.2 (clear_of_shown h)
    · intro h
      by_cases hnul : 0 ∈ content.take writebufferSize
      · exact shown_of_nul hnul
      · obtain ⟨hlt, hb⟩ := h.resolve_left hnul
        rw [List.take_of_length_le (Nat.le_of_lt hlt)] at hnul
        exact shown_of_clear hlt hb hnul

end

/-- **Every file is shown** in a sequence of viewings if and only if the buffer ends the string at
the end of each. -/
theorem shown_iff (vs : List Viewing) : (∀ ys v, ys ++ [v] <+: vs → Shown (viewed ys) v) ↔
    ∀ ys v, ys ++ [v] <+: vs → Clear (viewed ys) v :=
  forall_congr' fun _ => forall_congr' fun _ => imp_congr_right fun _ => shown_iff_clear

/-! ## Files without NULs -/

/-- A cell of the buffer is NUL as long as no viewing reaches past it. -/
theorem viewed_eq_zero_iff {vs : List Viewing} (h : ∀ v ∈ vs, 0 ∉ v.stored) (n : ℕ) :
    viewed vs n = 0 ↔ ∀ v ∈ vs, v.stored.length ≤ n := by
  induction vs using List.reverseRecOn with
  | nil => simp [viewed]
  | append_singleton vs v ih =>
    have ih := ih fun w hw => h w (by simp [hw])
    have hv := h v (by simp)
    rw [viewed_snoc]
    rcases Nat.lt_or_ge n v.stored.length with hlt | hle
    · have hget := blit_add (viewed vs) 0 hlt
      rw [Nat.zero_add] at hget
      refine iff_of_false (fun hz => hv (?_ : (0 : UInt8) ∈ v.stored)) fun hall => ?_
      · rw [← hz, hget]
        exact List.getElem_mem hlt
      · exact absurd (hall v (by simp)) (Nat.not_le.2 hlt)
    · rw [blit_of_ge _ (by simpa using hle), ih]
      constructor
      · intro hall w hw
        rcases List.mem_append.1 hw with hw | hw
        · exact hall w hw
        · rw [List.mem_singleton.1 hw]
          exact hle
      · intro hall w hw
        exact hall w (by simp [hw])

/-- **Short files show what longer ones have left behind.** -/
theorem shown_iff_covers {ys : List Viewing} (h : ∀ v ∈ ys, 0 ∉ v.stored) {content : List UInt8}
    (hnul : 0 ∉ content) : Shown (viewed ys) (.file content) ↔
      content.length < writebufferSize ∧ ∀ v ∈ ys, v.stored.length ≤ content.length := by
  rw [shown_iff_clear, Clear, viewed_eq_zero_iff h]
  refine or_iff_right fun hmem => hnul (List.mem_of_mem_take hmem)

/-- The file "ab" is viewed, then the file "c". -/
theorem not_shown : ¬ ∀ vs ys v, ys ++ [v] <+: vs → Shown (viewed ys) v := by
  intro h
  have hs := h [.file [97, 98], .file [99]] [.file [97, 98]] (.file [99]) (List.prefix_refl _)
  have := ((shown_iff_covers (by decide) (by decide)).1 hs).2 (.file [97, 98]) (by simp)
  exact absurd this (by decide)

end DataRecorder.TextWindow
