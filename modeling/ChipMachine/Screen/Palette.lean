import ChipMachine.Text.Blank
import ChipMachine.Text.Caseless

namespace ChipMachine

structure Colour where
  red : UInt8
  green : UInt8
  blue : UInt8
  deriving DecidableEq

def Colour.bytes (c : Colour) : List UInt8 := [c.red, c.green, c.blue]

inductive Palette where
  | black
  | yellow
  | green
  deriving DecidableEq

namespace Palette

def ink : Palette → Colour
  | black => ⟨255, 255, 255⟩
  | yellow => ⟨255, 204, 1⟩
  | green => ⟨0, 255, 0⟩

def paper : Palette → Colour
  | black => ⟨0, 0, 0⟩
  | yellow => ⟨154, 102, 1⟩
  | green => ⟨0, 0, 0⟩

def colour (p : Palette) (lit : Bool) : Colour := if lit then p.ink else p.paper

def names : List (String × Palette) := [("black", black), ("yellow", yellow), ("green", green)]

/-- Blanks around the name and case do not matter. -/
def ofName? (s : String) : Option Palette := Text.named? names (Text.trimBlanks s.toList)

structure UnknownName where
  text : String
  deriving DecidableEq

def UnknownName.message (e : UnknownName) : String :=
  "unknown color `" ++ e.text ++ "`; expected one of black, yellow, green"

/-- The refused text is kept as it was written. -/
def ofName (s : String) : Except UnknownName Palette :=
  match ofName? s with
  | some p => .ok p
  | none => .error ⟨s⟩

theorem ink_ne_paper (p : Palette) : p.ink ≠ p.paper := by cases p <;> decide

end Palette
end ChipMachine
