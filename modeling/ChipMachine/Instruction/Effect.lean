import ChipMachine.CallStack
import ChipMachine.Instruction.Basic
import ChipMachine.Screen.Scroll
import ChipMachine.Screen.Sprite

namespace ChipMachine

namespace Core

/-- A register combined with another; VF is cleared where the dialect says so, last of all. -/
def combine (s : Core) (x : Reg) (b : UInt8) : Core :=
  let t := s.put x b
  if s.conventions.logicClearsFlag then t.put .flag 0 else t

/-- The byte that a shift into Vx starts from. -/
def shiftOperand (s : Core) (x y : Reg) : UInt8 :=
  if s.conventions.shiftReadsY then s.reg y else s.reg x

def offsetRegister (s : Core) (a : UInt16) : Reg :=
  ⟨(if s.conventions.offsetNamesRegister then a.toNat / 256 else 0) % 16, Nat.mod_lt _ (by decide)⟩

/-- I after V0 to Vx were transferred. -/
def indexAfterTransfer (s : Core) (x : Reg) : UInt16 :=
  if s.conventions.transferMovesIndex then s.i + UInt16.ofNat (x.val + 1) else s.i

def decimalDigits (b : UInt8) : List UInt8 := [b / 100, b / 10 % 10, b % 10]

/-- The sprite at I is drawn; VF tells whether it turned a lit pixel off. -/
def drawSprite (s : Core) (x y : Reg) (n : UInt8) : Core :=
  let drawn := s.bitmap.drawSprite s.mode s.conventions.spritesClip (s.reg x).toNat (s.reg y).toNat
    (s.memory.readBlock s.i n.toNat)
  (s.paint drawn.1).flag drawn.2

def switchTo (s : Core) (mode : Mode) : Core := { s with mode := mode, dirty := true }

/-- The lowest pressed key goes to Vx; while none is pressed the instruction is repeated. -/
def waitKey (s : Core) (x : Reg) : Core :=
  match s.keypad.lowest? with
  | some k => s.put x (UInt8.ofNat k)
  | none => { s with pc := s.pc - 2 }

def storeRegisters (s : Core) (x : Reg) : Core :=
  { s with
    memory := s.memory.writeBlock (s.v.toList.take (x.val + 1)) s.i
    i := s.indexAfterTransfer x }

def loadRegisters (s : Core) (x : Reg) : Core :=
  { s with
    v := Vector.ofFn fun k => if k ≤ x then s.memory.read (s.i + UInt16.ofNat k) else s.reg k
    i := s.indexAfterTransfer x }

end Core

namespace Instruction

/-- Runs an instruction that the program counter has already passed; `chance` is the random byte it
gets if it asks for one. -/
def execute (chance : UInt8) (s : Core) : Instruction → Except Fault Core
  | scrollDown n => .ok (s.paint (s.bitmap.scrollDown s.mode n.toNat))
  | clear => .ok (s.paint .blank)
  | ret => s.leave
  | scrollRight => .ok (s.paint (s.bitmap.scrollRight s.mode))
  | scrollLeft => .ok (s.paint (s.bitmap.scrollLeft s.mode))
  | halt => .ok s
  | lowMode => .ok (s.switchTo .low)
  | highMode => .ok (s.switchTo .high)
  | jump a => .ok { s with pc := a }
  | call a => s.enter a
  | skipIfByte x k => .ok (s.skipIf (s.reg x == k))
  | skipUnlessByte x k => .ok (s.skipIf (s.reg x != k))
  | skipIfEqual x y => .ok (s.skipIf (s.reg x == s.reg y))
  | setByte x k => .ok (s.put x k)
  | addByte x k => .ok (s.put x (s.reg x + k))
  | copy x y => .ok (s.put x (s.reg y))
  | or x y => .ok (s.combine x (s.reg x ||| s.reg y))
  | and x y => .ok (s.combine x (s.reg x &&& s.reg y))
  | xor x y => .ok (s.combine x (s.reg x ^^^ s.reg y))
  | add x y => .ok ((s.put x (s.reg x + s.reg y)).flag (255 < (s.reg x).toNat + (s.reg y).toNat))
  | sub x y => .ok ((s.put x (s.reg x - s.reg y)).flag (s.reg y ≤ s.reg x))
  | shiftRight x y =>
    .ok ((s.put x (s.shiftOperand x y >>> 1)).flag ((s.shiftOperand x y).toNat.testBit 0))
  | subFrom x y => .ok ((s.put x (s.reg y - s.reg x)).flag (s.reg x ≤ s.reg y))
  | shiftLeft x y =>
    .ok ((s.put x (s.shiftOperand x y <<< 1)).flag ((s.shiftOperand x y).toNat.testBit 7))
  | skipUnlessEqual x y => .ok (s.skipIf (s.reg x != s.reg y))
  | setIndex a => .ok { s with i := a }
  | jumpOffset a => .ok { s with pc := a + (s.reg (s.offsetRegister a)).toUInt16 }
  | random x k => .ok (s.put x (chance &&& k))
  | draw x y n => .ok (s.drawSprite x y n)
  | skipIfDown x => .ok (s.skipIf (s.keypad.isDown (Keypad.key (s.reg x))))
  | skipUnlessDown x => .ok (s.skipIf (! s.keypad.isDown (Keypad.key (s.reg x))))
  | getDelay x => .ok (s.put x s.delay)
  | waitKey x => .ok (s.waitKey x)
  | setDelay x => .ok { s with delay := s.reg x }
  | setSound x => .ok { s with sound := s.reg x }
  | addIndex x => .ok { s with i := s.i + (s.reg x).toUInt16 }
  | glyph x => .ok { s with i := Font.address (s.reg x) }
  | decimal x => .ok { s with memory := s.memory.writeBlock (Core.decimalDigits (s.reg x)) s.i }
  | store x => .ok (s.storeRegisters x)
  | load x => .ok (s.loadRegisters x)

/-- Only a halt ends the tick. -/
def flow : Instruction → Flow
  | halt => .halt
  | _ => .proceed

def draws : Instruction → Nat
  | random .. => 1
  | _ => 0

def mode? : Instruction → Option Mode
  | lowMode => some .low
  | highMode => some .high
  | _ => none

end Instruction
end ChipMachine
