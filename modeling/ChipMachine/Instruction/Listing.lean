import ChipMachine.Instruction.Basic

namespace ChipMachine.Instruction

def name : Instruction → String
  | scrollDown .. => "ScrollDown"
  | clear => "Clear"
  | ret => "Return"
  | scrollRight => "ScrollRight"
  | scrollLeft => "ScrollLeft"
  | halt => "Halt"
  | lowMode => "LowRes"
  | highMode => "HighRes"
  | jump .. => "Jump"
  | call .. => "Call"
  | skipIfByte .. => "SkipEqualByte"
  | skipUnlessByte .. => "SkipNotEqualByte"
  | skipIfEqual .. => "SkipEqual"
  | setByte .. => "LoadByte"
  | addByte .. => "AddByte"
  | copy .. => "Move"
  | or .. => "Or"
  | and .. => "And"
  | xor .. => "Xor"
  | add .. => "Add"
  | sub .. => "Sub"
  | shiftRight .. => "ShiftRight"
  | subFrom .. => "SubReversed"
  | shiftLeft .. => "ShiftLeft"
  | skipUnlessEqual .. => "SkipNotEqual"
  | setIndex .. => "LoadIndex"
  | jumpOffset .. => "JumpOffset"
  | random .. => "Random"
  | draw .. => "Draw"
  | skipIfDown .. => "SkipPressed"
  | skipUnlessDown .. => "SkipNotPressed"
  | getDelay .. => "LoadDelay"
  | waitKey .. => "WaitKey"
  | setDelay .. => "SetDelay"
  | setSound .. => "SetSound"
  | addIndex .. => "AddIndex"
  | glyph .. => "LoadGlyph"
  | decimal .. => "Bcd"
  | store .. => "Store"
  | load .. => "Load"

/-- The fields in the order of their digits. -/
def fields : Instruction → List Nat
  | clear | ret | scrollRight | scrollLeft | halt | lowMode | highMode => []
  | scrollDown n => [n.toNat]
  | jump a | call a | setIndex a | jumpOffset a => [a.toNat]
  | skipIfByte x k | skipUnlessByte x k | setByte x k | addByte x k | random x k => [x, k.toNat]
  | skipIfEqual x y | skipUnlessEqual x y | copy x y | or x y | and x y | xor x y | add x y
  | sub x y | shiftRight x y | subFrom x y | shiftLeft x y => [x, y]
  | draw x y n => [x, y, n.toNat]
  | skipIfDown x | skipUnlessDown x | getDelay x | waitKey x | setDelay x | setSound x
  | addIndex x | glyph x | decimal x | store x | load x => [x]

def listing (i : Instruction) : String :=
  match i.fields with
  | [] => i.name
  | fs => i.name ++ "(" ++ ", ".intercalate (fs.map fun f => f.repr) ++ ")"

end ChipMachine.Instruction
