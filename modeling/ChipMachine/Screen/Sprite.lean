import ChipMachine.Screen.Bitmap

namespace ChipMachine

/-- The pixels that a sprite byte reaches in a row when its left end stands in column `left`. -/
def Mode.span (mode : Mode) (clips : Bool) (left : Nat) (pattern : UInt8) : PixelRow :=
  let pixels : PixelRow := BitVec.ofNat 128 pattern.toNat <<< 120
  let past := if clips then 0 else pixels <<< (mode.width - left)
  (pixels >>> left &&& mode.columns) ||| past

/-- The screen row that sprite row `y` lands on, counted from the top of the screen. -/
def Mode.line? (mode : Mode) (clips : Bool) (y : Nat) : Option Nat :=
  if y < mode.height then some y
  else if clips then none
  else some (y % mode.height)

theorem Mode.line?_lt {mode : Mode} {clips : Bool} {y line : Nat}
    (h : mode.line? clips y = some line) : line < mode.height := by
  have := mode.height_pos
  unfold Mode.line? at h
  split at h
  · simp_all
  · split at h
    · simp at h
    · simp only [Option.some.injEq] at h
      subst h
      exact Nat.mod_lt _ this

namespace Bitmap

def toggle (b : Bitmap) (y : Nat) (mask : PixelRow) : Bitmap :=
  ⟨b.rows.setIfInBounds y (b.row y ^^^ mask)⟩

theorem row_toggle (b : Bitmap) (mask : PixelRow) {y : Nat} (z : Nat) (h : y < 64) :
    (b.toggle y mask).row z = if y = z then b.row z ^^^ mask else b.row z := by
  by_cases hz : z < 64
  · by_cases hyz : y = z
    · subst hyz; simp [row_of_lt _ h, toggle]
    · simp [row_of_lt _ hz, toggle, hyz]
  · have hyz : y ≠ z := by omega
    simp [row_of_le _ (Nat.le_of_not_lt hz), hyz]

/-- Sprite rows are drawn from the top, the first on row `y`; a tall sprite that wraps may meet its
own pixels again. Also tells whether a lit pixel was turned off. -/
def blit (mode : Mode) (clips : Bool) (left : Nat) : List UInt8 → Nat → Bitmap → Bitmap × Bool
  | [], _, b => (b, false)
  | pattern :: below, y, b =>
    match mode.line? clips y with
    | none => blit mode clips left below (y + 1) b
    | some line =>
      let mask := mode.span clips left pattern
      let rest := blit mode clips left below (y + 1) (b.toggle line mask)
      (rest.1, b.row line &&& mask != 0 || rest.2)

/-- Each byte of a sprite is a row of eight pixels, the most significant bit to the left. The
position wraps into the active part of the screen before anything is drawn. -/
def drawSprite (b : Bitmap) (mode : Mode) (clips : Bool) (x y : Nat) (sprite : List UInt8) :
    Bitmap × Bool :=
  blit mode clips (x % mode.width) sprite (y % mode.height) b

end Bitmap
end ChipMachine
