import ChipMachine.Text.Blank
import ChipMachine.Text.Caseless

namespace ChipMachine

inductive Dialect where
  | vip
  | superChip
  | xoChip
  deriving DecidableEq

/-- What a dialect does where dialects differ. Instructions look at nothing else of it. -/
structure Conventions where
  /-- 8XY6 and 8XYE shift Vy into Vx instead of shifting Vx in place. -/
  shiftReadsY : Bool
  /-- 8XY1, 8XY2 and 8XY3 clear VF. -/
  logicClearsFlag : Bool
  /-- FX55 and FX65 leave I past the last byte transferred. -/
  transferMovesIndex : Bool
  /-- BNNN adds the register that the high digit of NNN names instead of V0. -/
  offsetNamesRegister : Bool
  /-- DXYN drops the pixels past an edge instead of wrapping them. -/
  spritesClip : Bool
  deriving DecidableEq

namespace Dialect

def conventions : Dialect → Conventions
  | vip => ⟨true, true, true, false, true⟩
  | superChip => ⟨false, false, false, true, true⟩
  | xoChip => ⟨false, false, false, false, false⟩

def title : Dialect → String
  | vip => "Original"
  | superChip => "Super-chip 1.1"
  | xoChip => "XO-Chip"

def names : List (String × Dialect) :=
  [("original", vip), ("chip8", vip), ("chip-8", vip),
   ("super", superChip), ("schip", superChip), ("superchip", superChip),
   ("xo", xoChip), ("xochip", xoChip), ("xo-chip", xoChip)]

/-- Blanks anywhere and case do not matter. -/
def ofName? (s : String) : Option Dialect :=
  Text.named? names (Text.withoutBlanks s.toList)

structure UnknownName where
  text : String
  deriving DecidableEq

def UnknownName.message (e : UnknownName) : String :=
  "unknown spec `" ++ e.text ++ "`; expected one of original, super, xo"

/-- The refused text is kept as it was written. -/
def ofName (s : String) : Except UnknownName Dialect :=
  match ofName? s with
  | some d => .ok d
  | none => .error ⟨s⟩

end Dialect
end ChipMachine
