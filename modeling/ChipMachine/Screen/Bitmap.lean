import ChipMachine.Screen.Mode

namespace ChipMachine

abbrev PixelRow := BitVec 128

/-- The screen's pixels, kept in both modes. The most significant bit of a row is its leftmost
pixel. -/
structure Bitmap where
  rows : Vector PixelRow 64
  deriving DecidableEq

namespace Bitmap

def blank : Bitmap := ⟨Vector.replicate 64 0⟩

/-- A row; rows below the screen are dark. -/
def row (b : Bitmap) (y : Nat) : PixelRow := b.rows[y]?.getD 0

/-- Whether the pixel in column `x` of row `y` is on; pixels off the screen are not. -/
def lit (b : Bitmap) (x y : Nat) : Bool := (b.row y).getMsbD x

theorem row_of_lt (b : Bitmap) {y : Nat} (h : y < 64) : b.row y = b.rows[y] := by
  simp [row, h]

theorem row_of_le (b : Bitmap) {y : Nat} (h : 64 ≤ y) : b.row y = 0 := by
  simp [row, h]

theorem lit_blank (x y : Nat) : blank.lit x y = false := by
  unfold lit row blank
  by_cases h : y < 64 <;> simp [h]

theorem lit_eq_false_of_le (b : Bitmap) {x y : Nat} (h : 128 ≤ x ∨ 64 ≤ y) :
    b.lit x y = false := by
  rcases h with h | h
  · simp [lit, BitVec.getMsbD, Nat.not_lt.mpr h]
  · simp [lit, row_of_le _ h]

/-- The pixels are all there is to a screen. -/
theorem ext_lit {a b : Bitmap} (h : ∀ x y, x < 128 → y < 64 → a.lit x y = b.lit x y) :
    a = b := by
  obtain ⟨p⟩ := a
  obtain ⟨q⟩ := b
  congr 1
  apply Vector.ext
  intro y hy
  apply BitVec.eq_of_getMsbD_eq
  intro x hx
  simpa [lit, row, hy] using h x y hx hy

end Bitmap

/-- The columns that a mode uses. -/
def Mode.columns (m : Mode) : PixelRow := BitVec.allOnes 128 <<< (128 - m.width)

theorem Mode.getMsbD_columns (m : Mode) (x : Nat) :
    m.columns.getMsbD x = decide (x < m.width) := by
  have := m.width_le
  rw [columns, BitVec.getMsbD_shiftLeft, BitVec.getMsbD, BitVec.getLsbD_allOnes, Bool.eq_iff_iff]
  simp
  omega

end ChipMachine
