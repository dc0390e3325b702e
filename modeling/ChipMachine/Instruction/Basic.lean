import ChipMachine.Word

namespace ChipMachine

/-- In the fields `k` is a byte, `a` an address and `n` a number of rows. -/
inductive Instruction where
  | scrollDown (n : UInt8)
  | clear
  | ret
  | scrollRight
  | scrollLeft
  /-- 00FD: nothing more in this tick. -/
  | halt
  | lowMode
  | highMode
  | jump (a : UInt16)
  | call (a : UInt16)
  | skipIfByte (x : Reg) (k : UInt8)
  | skipUnlessByte (x : Reg) (k : UInt8)
  | skipIfEqual (x y : Reg)
  | setByte (x : Reg) (k : UInt8)
  /-- 7XKK: Vx grows by k, without a carry. -/
  | addByte (x : Reg) (k : UInt8)
  | copy (x y : Reg)
  | or (x y : Reg)
  | and (x y : Reg)
  | xor (x y : Reg)
  /-- 8XY4: Vx grows by Vy, VF is the carry. -/
  | add (x y : Reg)
  /-- 8XY5: Vx shrinks by Vy, VF is 1 unless that borrows. -/
  | sub (x y : Reg)
  /-- 8XY6: halved, VF is the bit lost. -/
  | shiftRight (x y : Reg)
  /-- 8XY7: Vx becomes Vy less Vx, VF is 1 unless that borrows. -/
  | subFrom (x y : Reg)
  /-- 8XYE: doubled, VF is the bit lost. -/
  | shiftLeft (x y : Reg)
  | skipUnlessEqual (x y : Reg)
  | setIndex (a : UInt16)
  /-- BNNN: jump to a plus a register. -/
  | jumpOffset (a : UInt16)
  /-- CXKK: Vx becomes a random byte masked with k. -/
  | random (x : Reg) (k : UInt8)
  /-- DXYN: an n row sprite at column Vx, row Vy. -/
  | draw (x y : Reg) (n : UInt8)
  | skipIfDown (x : Reg)
  | skipUnlessDown (x : Reg)
  | getDelay (x : Reg)
  /-- FX0A: wait for a key, which becomes Vx. -/
  | waitKey (x : Reg)
  | setDelay (x : Reg)
  | setSound (x : Reg)
  | addIndex (x : Reg)
  /-- FX29: I becomes the address of the glyph for Vx. -/
  | glyph (x : Reg)
  /-- FX33: the decimal digits of Vx go to memory at I. -/
  | decimal (x : Reg)
  /-- FX55: V0 to Vx go to memory at I. -/
  | store (x : Reg)
  /-- FX65: V0 to Vx come from memory at I. -/
  | load (x : Reg)
  deriving DecidableEq

/-- Whether the instructions after this one still belong to the same tick. -/
inductive Flow where
  | proceed
  | halt
  deriving DecidableEq

end ChipMachine
