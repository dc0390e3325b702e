namespace ChipMachine

/-- The low mode uses the top left quarter of the screen. -/
inductive Mode where
  | low
  | high
  deriving DecidableEq

namespace Mode

def width : Mode → Nat
  | low => 64
  | high => 128

def height : Mode → Nat
  | low => 32
  | high => 64

def title : Mode → String
  | low => "Low"
  | high => "High"

theorem width_pos (m : Mode) : 0 < m.width := by cases m <;> decide

theorem height_pos (m : Mode) : 0 < m.height := by cases m <;> decide

theorem width_le (m : Mode) : m.width ≤ 128 := by cases m <;> decide

theorem height_le (m : Mode) : m.height ≤ 64 := by cases m <;> decide

end Mode
end ChipMachine
