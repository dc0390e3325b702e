namespace ChipMachine

/-- Keys by their place on the keyboard, whatever is printed on them. -/
inductive Scancode where
  | num1 | num2 | num3 | num4
  | q | w | e | r
  | a | s | d | f
  | z | x | c | v
  | escape
  | space
  | other (name : String)
  deriving DecidableEq

namespace Scancode

/-- The names of the keys that have a meaning here. -/
def names : List (String × Scancode) :=
  [("Num1", num1), ("Num2", num2), ("Num3", num3), ("Num4", num4),
   ("Q", q), ("W", w), ("E", e), ("R", r),
   ("A", a), ("S", s), ("D", d), ("F", f),
   ("Z", z), ("X", x), ("C", c), ("V", v),
   ("Escape", escape), ("Space", space)]

def ofName (name : String) : Scancode := (names.lookup name).getD (other name)

/-- The key of the keypad that a key stands for: the square of four by four at the left of the
letters, in the keypad's own arrangement. -/
def keypad? : Scancode → Option (Fin 16)
  | num1 => some 0x1 | num2 => some 0x2 | num3 => some 0x3 | num4 => some 0xC
  | q => some 0x4 | w => some 0x5 | e => some 0x6 | r => some 0xD
  | a => some 0x7 | s => some 0x8 | d => some 0x9 | f => some 0xE
  | z => some 0xA | x => some 0x0 | c => some 0xB | v => some 0xF
  | escape | space | other _ => none

end Scancode

namespace Keyboard

def controls : String :=
  "keypad      keyboard\n" ++
  "|1|2|3|C|   |1|2|3|4|\n" ++
  "|4|5|6|D|   |Q|W|E|R|\n" ++
  "|7|8|9|E|   |A|S|D|F|\n" ++
  "|A|0|B|F|   |Z|X|C|V|\n" ++
  "\n" ++
  "hold Escape to rewind, hold Space to fast forward"

end Keyboard
end ChipMachine
