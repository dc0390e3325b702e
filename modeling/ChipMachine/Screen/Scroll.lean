import ChipMachine.Screen.Bitmap

namespace ChipMachine.Bitmap

/-- Columns that a sideways scroll moves by. -/
def sideways : Nat := 4

/-- The active part of the screen becomes the given rows, cut to the columns in use; all pixels
outside it stay. -/
def redraw (b : Bitmap) (mode : Mode) (line : Nat → PixelRow) : Bitmap :=
  ⟨Vector.ofFn fun y =>
    if y.val < mode.height then
      (line y &&& mode.columns) ||| (b.rows[y] &&& ~~~mode.columns)
    else b.rows[y]⟩

theorem row_redraw (b : Bitmap) (mode : Mode) (line : Nat → PixelRow) {y : Nat} (h : y < 64) :
    (b.redraw mode line).row y =
      if y < mode.height then (line y &&& mode.columns) ||| (b.row y &&& ~~~mode.columns)
      else b.row y := by
  simp [row_of_lt _ h, redraw]

theorem lit_redraw (b : Bitmap) (mode : Mode) (line : Nat → PixelRow) (x y : Nat) :
    (b.redraw mode line).lit x y =
      if x < mode.width ∧ y < mode.height then (line y).getMsbD x else b.lit x y := by
  have hw := mode.width_le
  have hh := mode.height_le
  by_cases hx : x < 128
  · by_cases hy : y < 64
    · rw [lit, row_redraw b mode line hy]
      by_cases hyh : y < mode.height <;> by_cases hxw : x < mode.width <;>
        simp [hyh, hxw, hx, Mode.getMsbD_columns, lit]
    · rw [lit_eq_false_of_le _ (.inr (Nat.le_of_not_lt hy)), if_neg (by omega),
        lit_eq_false_of_le _ (.inr (Nat.le_of_not_lt hy))]
  · rw [lit_eq_false_of_le _ (.inl (Nat.le_of_not_lt hx)), if_neg (by omega),
      lit_eq_false_of_le _ (.inl (Nat.le_of_not_lt hx))]

def scrollDown (b : Bitmap) (mode : Mode) (n : Nat) : Bitmap :=
  b.redraw mode fun y => if n ≤ y then b.row (y - n) else 0

def scrollRight (b : Bitmap) (mode : Mode) : Bitmap :=
  b.redraw mode fun y => b.row y >>> sideways

def scrollLeft (b : Bitmap) (mode : Mode) : Bitmap :=
  b.redraw mode fun y => (b.row y &&& mode.columns) <<< sideways

section
variable (b : Bitmap) (mode : Mode) (x y : Nat)

theorem lit_scrollDown (n : Nat) :
    (b.scrollDown mode n).lit x y =
      if x < mode.width ∧ y < mode.height then decide (n ≤ y) && b.lit x (y - n)
      else b.lit x y := by
  rw [scrollDown, lit_redraw]
  by_cases h : n ≤ y <;> simp [h, lit]

theorem lit_scrollRight :
    (b.scrollRight mode).lit x y =
      if x < mode.width ∧ y < mode.height then decide (sideways ≤ x) && b.lit (x - sideways) y
      else b.lit x y := by
  have hw := mode.width_le
  rw [scrollRight, lit_redraw]
  split
  · rename_i h
    have hx : x < 128 := by omega
    by_cases hs : sideways ≤ x
    · simp [BitVec.getMsbD_ushiftRight, hs, hx, lit, Nat.not_lt.mpr hs]
    · simp [BitVec.getMsbD_ushiftRight, hs, Nat.lt_of_not_le hs]
  · rfl

theorem lit_scrollLeft :
    (b.scrollLeft mode).lit x y =
      if x < mode.width ∧ y < mode.height then
        decide (x + sideways < mode.width) && b.lit (x + sideways) y
      else b.lit x y := by
  rw [scrollLeft, lit_redraw]
  split
  · simp [Mode.getMsbD_columns, lit, Bool.and_comm]
  · rfl

end
end ChipMachine.Bitmap
