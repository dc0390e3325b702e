import ChipMachine.Proofs.Checked.Screen
import ChipMachine.Instruction.Effect

namespace ChipMachine

/-- The instructions that move the picture. -/
inductive Scroll where
  | down (n : UInt8)
  | right
  | left

namespace Scroll

def instruction : Scroll → Instruction
  | down n => .scrollDown n
  | right => .scrollRight
  | left => .scrollLeft

/-- Rows that the picture moves down. -/
def rows : Scroll → Nat
  | down n => n.toNat
  | _ => 0

/-- Columns that the picture moves to the right. -/
def columns : Scroll → Int
  | down _ => 0
  | right => 4
  | left => -4

/-- The picture as a whole moves. -/
def shift (b : Bitmap) (mode : Mode) : Scroll → Bitmap
  | down n => b.scrollDown mode n.toNat
  | right => b.scrollRight mode
  | left => b.scrollLeft mode

/-- The pixels move one after another, each in its place. -/
def pass (b : Bitmap) (mode : Mode) : Scroll → Checked Bitmap
  | down n => Checked.scrollDown b mode n.toNat
  | right => Checked.scrollRight b mode
  | left => Checked.scrollLeft b mode

/-- How far a list of scrolls moves the picture down. -/
def descent : List Scroll → Nat
  | [] => 0
  | c :: cs => c.rows + descent cs

def drift : List Scroll → Int
  | [] => 0
  | c :: cs => c.columns + drift cs

variable (b : Bitmap) (mode : Mode)

theorem pass_eq (c : Scroll) : c.pass b mode = .ok (c.shift b mode) := by
  cases c with
  | down n => exact Checked.scrollDown_eq b mode n.toNat_lt
  | right => exact Checked.scrollRight_eq b mode
  | left => exact Checked.scrollLeft_eq b mode

theorem execute_eq (chance : UInt8) (s : Core) (c : Scroll) :
    c.instruction.execute chance s = .ok (s.paint (c.shift s.bitmap s.mode)) := by
  cases c <;> rfl

/-- In the active part a pixel is lit if the one that moves onto it was lit. -/
theorem lit_shift (c : Scroll) {x y : Nat} (hx : x < mode.width) (hy : y < mode.height) :
    (c.shift b mode).lit x y = true ↔ ∃ u w : Nat, u < mode.width ∧ w < mode.height ∧
      (x : Int) = u + c.columns ∧ y = w + c.rows ∧ b.lit u w = true := by
  cases c with
  | down n =>
    rw [shift, Bitmap.lit_scrollDown, if_pos ⟨hx, hy⟩, Bool.and_eq_true, decide_eq_true_eq]
    simp only [columns, rows]
    constructor
    · intro found
      obtain ⟨hle, hl⟩ := found
      exact ⟨x, y - n.toNat, hx, by omega, by omega, by omega, hl⟩
    · intro found
      obtain ⟨u, w, _, _, hxu, rfl, hl⟩ := found
      obtain rfl : x = u := by omega
      exact ⟨Nat.le_add_left .., by rwa [Nat.add_sub_cancel]⟩
  | right =>
    rw [shift, Bitmap.lit_scrollRight, if_pos ⟨hx, hy⟩, Bool.and_eq_true, decide_eq_true_eq]
    simp only [columns, rows, Bitmap.sideways]
    constructor
    · intro found
      obtain ⟨hle, hl⟩ := found
      exact ⟨x - 4, y, by omega, hy, by omega, rfl, hl⟩
    · intro found
      obtain ⟨u, w, _, _, hxu, rfl, hl⟩ := found
      obtain rfl : u = x - 4 := by omega
      exact ⟨by omega, hl⟩
  | left =>
    rw [shift, Bitmap.lit_scrollLeft, if_pos ⟨hx, hy⟩, Bool.and_eq_true, decide_eq_true_eq]
    simp only [columns, rows, Bitmap.sideways]
    constructor
    · intro found
      obtain ⟨hlt, hl⟩ := found
      exact ⟨x + 4, y, hlt, hy, by omega, rfl, hl⟩
    · intro found
      obtain ⟨u, w, _, _, hxu, rfl, hl⟩ := found
      obtain rfl : u = x + 4 := by omega
      exact ⟨by omega, hl⟩

theorem lit_shift_outside (c : Scroll) {x y : Nat} (h : ¬ (x < mode.width ∧ y < mode.height)) :
    (c.shift b mode).lit x y = b.lit x y := by
  cases c with
  | down n => exact (b.lit_scrollDown mode x y n.toNat).trans (if_neg h)
  | right => exact (b.lit_scrollRight mode x y).trans (if_neg h)
  | left => exact (b.lit_scrollLeft mode x y).trans (if_neg h)

def shiftAll (scrolls : List Scroll) : Bitmap := scrolls.foldl (fun b c => c.shift b mode) b

theorem lit_shiftAll (scrolls : List Scroll) {x y : Nat} (hx : x < mode.width)
    (hy : y < mode.height) :
    (shiftAll b mode scrolls).lit x y = true ↔ ∃ u w : Nat, u < mode.width ∧ w < mode.height ∧
      (x : Int) = u + drift scrolls ∧ y = w + descent scrolls ∧ b.lit u w = true ∧
      ∀ p, p <+: scrolls → 0 ≤ u + drift p ∧ u + drift p < mode.width := by
  induction scrolls generalizing b with
  | nil =>
    constructor
    · intro hl
      refine ⟨x, y, hx, hy, by simp [drift], by simp [descent], hl, ?_⟩
      intro p hp
      rw [List.prefix_nil.mp hp]
      simp only [drift]
      omega
    · intro found
      obtain ⟨u, w, _, _, hxu, hyw, hl, _⟩ := found
      simp only [drift, descent] at hxu hyw
      obtain rfl : x = u := by omega
      obtain rfl : y = w := by omega
      exact hl
  | cons c cs ih =>
    rw [shiftAll, List.foldl_cons, ← shiftAll, ih, descent, drift]
    constructor
    · intro found
      obtain ⟨u', w', hu', hw', hxu, hyw, hl, hp⟩ := found
      obtain ⟨u, w, hu, hw, huu, hww, hl⟩ := (lit_shift b mode c hu' hw').mp hl
      refine ⟨u, w, hu, hw, by omega, by omega, hl, ?_⟩
      intro p hpre
      rcases List.prefix_cons_iff.mp hpre with rfl | ⟨q, rfl, hq⟩
      · simp only [drift]
        omega
      · have := hp q hq
        rw [drift]
        omega
    · intro found
      obtain ⟨u, w, hu, hw, hxu, hyw, hl, hp⟩ := found
      -- the first scroll must not take the pixel out of the active part
      have hfirst := hp [c] (List.prefix_cons_inj c |>.mpr List.nil_prefix)
      simp only [drift] at hfirst
      refine ⟨(u + c.columns).toNat, w + c.rows, by omega, by omega, by omega, by omega, ?_, ?_⟩
      · exact (lit_shift b mode c (by omega) (by omega)).mpr
          ⟨u, w, hu, hw, by omega, rfl, hl⟩
      · intro q hq
        have := hp (c :: q) ((List.prefix_cons_inj c).mpr hq)
        rw [drift] at this
        omega

theorem lit_shiftAll_outside (scrolls : List Scroll) {x y : Nat}
    (h : ¬ (x < mode.width ∧ y < mode.height)) :
    (shiftAll b mode scrolls).lit x y = b.lit x y := by
  induction scrolls generalizing b with
  | nil => rfl
  | cons c cs ih => exact (ih (c.shift b mode)).trans (lit_shift_outside b mode c h)

theorem execute_all (chance : UInt8) (s : Core) (scrolls : List Scroll) :
    scrolls.foldlM (fun s c => c.instruction.execute chance s) s =
      .ok { s with
        bitmap := shiftAll s.bitmap s.mode scrolls
        dirty := s.dirty || ! scrolls.isEmpty } := by
  induction scrolls generalizing s with
  | nil => simp [shiftAll, pure, Except.pure]
  | cons c cs ih =>
    rw [List.foldlM_cons, execute_eq]
    refine (ih (s.paint (c.shift s.bitmap s.mode))).trans ?_
    simp [Core.paint, shiftAll]

theorem pass_all (scrolls : List Scroll) :
    scrolls.foldlM (fun b c => c.pass b mode) b = .ok (shiftAll b mode scrolls) := by
  induction scrolls generalizing b with
  | nil => rfl
  | cons c cs ih =>
    rw [List.foldlM_cons, pass_eq]
    exact ih (c.shift b mode)

end Scroll

namespace Bitmap

variable (b : Bitmap) (mode : Mode)

theorem scrollDown_zero : b.scrollDown mode 0 = b := by
  apply ext_lit
  intro x y _ _
  rw [lit_scrollDown]
  split <;> simp

theorem scrollDown_add (m n : Nat) :
    (b.scrollDown mode m).scrollDown mode n = b.scrollDown mode (m + n) := by
  apply ext_lit
  intro x y _ _
  simp only [lit_scrollDown]
  by_cases h : x < mode.width ∧ y < mode.height
  · rw [if_pos h, if_pos h]
    by_cases hn : n ≤ y
    · have hin : x < mode.width ∧ y - n < mode.height := by omega
      rw [if_pos hin, Nat.sub_sub, Nat.add_comm n m]
      by_cases hm : m + n ≤ y
      · simp [hn, hm, show m ≤ y - n by omega]
      · simp [hm, show ¬ m ≤ y - n by omega]
    · simp [hn, show ¬ m + n ≤ y by omega]
  · rw [if_neg h, if_neg h, if_neg h]

/-- There and back loses the last four columns and no others. -/
theorem lit_scrollRight_scrollLeft (x y : Nat) :
    ((b.scrollRight mode).scrollLeft mode).lit x y =
      if x < mode.width ∧ y < mode.height then
        decide (x + sideways < mode.width) && b.lit x y
      else b.lit x y := by
  rw [lit_scrollLeft, lit_scrollRight, lit_scrollRight]
  by_cases h : x < mode.width ∧ y < mode.height
  · rw [if_pos h, if_pos h]
    by_cases hx : x + sideways < mode.width
    · have hin : x + sideways < mode.width ∧ y < mode.height := ⟨hx, h.2⟩
      rw [if_pos hin]
      simp
    · simp [hx]
  · rw [if_neg h, if_neg h, if_neg h]

end Bitmap

/-- A list of scrolls moves each pixel of the active part by the sum of all steps, unless one of
them took it over an edge, and touches nothing else; the passes that move pixels in place come to
the same picture. -/
theorem Scroll.list_shifts (chance : UInt8) (s : Core) (scrolls : List Scroll) :
    (∃ picture : Bitmap,
      scrolls.foldlM (fun s c => c.instruction.execute chance s) s =
        .ok { s with bitmap := picture, dirty := s.dirty || ! scrolls.isEmpty } ∧
      scrolls.foldlM (fun b c => c.pass b s.mode) s.bitmap = .ok picture ∧
      ∀ x y, picture.lit x y = true ↔
        if x < s.mode.width ∧ y < s.mode.height then
          ∃ u w : Nat, u < s.mode.width ∧ w < s.mode.height ∧
            (x : Int) = u + drift scrolls ∧ y = w + descent scrolls ∧ s.bitmap.lit u w = true ∧
            ∀ p, p <+: scrolls → 0 ≤ u + drift p ∧ u + drift p < s.mode.width
        else s.bitmap.lit x y = true) ∧
    ∀ (b : Bitmap) (mode : Mode),
      (∀ c : Scroll, ∃ picture : Bitmap, c.pass b mode = .ok picture ∧
        ∀ x y, picture.lit x y = true ↔
          if x < mode.width ∧ y < mode.height then
            ∃ u w : Nat, u < mode.width ∧ w < mode.height ∧
              (x : Int) = u + c.columns ∧ y = w + c.rows ∧ b.lit u w = true
          else b.lit x y = true) ∧
      (Scroll.down 0).pass b mode = .ok b ∧
      (∀ m n, (b.scrollDown mode m).scrollDown mode n = b.scrollDown mode (m + n)) ∧
      ∀ x y, ((b.scrollRight mode).scrollLeft mode).lit x y =
        if x < mode.width ∧ y < mode.height then decide (x + 4 < mode.width) && b.lit x y
        else b.lit x y := by
  constructor
  · refine ⟨shiftAll s.bitmap s.mode scrolls, execute_all chance s scrolls,
      pass_all s.bitmap s.mode scrolls, ?_⟩
    intro x y
    split
    · rename_i h
      exact lit_shiftAll s.bitmap s.mode scrolls h.1 h.2
    · rename_i h
      rw [lit_shiftAll_outside s.bitmap s.mode scrolls h]
  · intro b mode
    refine ⟨?_, ?_, b.scrollDown_add mode, b.lit_scrollRight_scrollLeft mode⟩
    · intro c
      refine ⟨c.shift b mode, pass_eq b mode c, ?_⟩
      intro x y
      split
      · rename_i h
        exact lit_shift b mode c h.1 h.2
      · rename_i h
        rw [lit_shift_outside b mode c h]
    · rw [pass_eq]
      exact congrArg Except.ok (b.scrollDown_zero mode)

end ChipMachine
