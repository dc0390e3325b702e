import ChipMachine.Instruction.Basic

namespace ChipMachine.Instruction

/-- Words of family 0: all digits but the last row count are fixed. -/
def decodeSystem (w : Word) : Option Instruction :=
  if w.toNat / 16 = 0x00C then some (.scrollDown (UInt8.ofNat w.n))
  else match w.toNat with
    | 0x00E0 => some .clear
    | 0x00EE => some .ret
    | 0x00FB => some .scrollRight
    | 0x00FC => some .scrollLeft
    | 0x00FD => some .halt
    | 0x00FE => some .lowMode
    | 0x00FF => some .highMode
    | _ => none

/-- Words of family 8: the last digit selects the operation. -/
def decodeArithmetic (w : Word) : Option Instruction :=
  match w.n with
  | 0x0 => some (.copy w.x w.y)
  | 0x1 => some (.or w.x w.y)
  | 0x2 => some (.and w.x w.y)
  | 0x3 => some (.xor w.x w.y)
  | 0x4 => some (.add w.x w.y)
  | 0x5 => some (.sub w.x w.y)
  | 0x6 => some (.shiftRight w.x w.y)
  | 0x7 => some (.subFrom w.x w.y)
  | 0xE => some (.shiftLeft w.x w.y)
  | _ => none

/-- Words of family E: the last two digits select the test. -/
def decodeKey (w : Word) : Option Instruction :=
  match w.byte.toNat with
  | 0x9E => some (.skipIfDown w.x)
  | 0xA1 => some (.skipUnlessDown w.x)
  | _ => none

/-- Words of family F: the last two digits select the transfer. -/
def decodeTransfer (w : Word) : Option Instruction :=
  match w.byte.toNat with
  | 0x07 => some (.getDelay w.x)
  | 0x0A => some (.waitKey w.x)
  | 0x15 => some (.setDelay w.x)
  | 0x18 => some (.setSound w.x)
  | 0x1E => some (.addIndex w.x)
  | 0x29 => some (.glyph w.x)
  | 0x33 => some (.decimal w.x)
  | 0x55 => some (.store w.x)
  | 0x65 => some (.load w.x)
  | _ => none

/-- The instruction of a word, if the word has one. Every dialect reads words alike. -/
def decode (w : Word) : Option Instruction :=
  match w.family with
  | 0x0 => decodeSystem w
  | 0x1 => some (.jump w.address)
  | 0x2 => some (.call w.address)
  | 0x3 => some (.skipIfByte w.x w.byte)
  | 0x4 => some (.skipUnlessByte w.x w.byte)
  | 0x5 => if w.n.val = 0 then some (.skipIfEqual w.x w.y) else none
  | 0x6 => some (.setByte w.x w.byte)
  | 0x7 => some (.addByte w.x w.byte)
  | 0x8 => decodeArithmetic w
  | 0x9 => if w.n.val = 0 then some (.skipUnlessEqual w.x w.y) else none
  | 0xA => some (.setIndex w.address)
  | 0xB => some (.jumpOffset w.address)
  | 0xC => some (.random w.x w.byte)
  | 0xD => some (.draw w.x w.y (UInt8.ofNat w.n))
  | 0xE => decodeKey w
  | _ => decodeTransfer w

/-- Four digits, most significant first; a digit too large carries over. -/
def digits (a b c d : Nat) : Word := UInt16.ofNat (4096 * a + 256 * b + 16 * c + d)

def withByte (family : Nat) (x : Reg) (k : UInt8) : Word := digits family x 0 k.toNat

def withAddress (family : Nat) (a : UInt16) : Word := digits family 0 0 a.toNat

def encode : Instruction → Word
  | scrollDown n => digits 0 0 0xC n.toNat
  | clear => 0x00E0
  | ret => 0x00EE
  | scrollRight => 0x00FB
  | scrollLeft => 0x00FC
  | halt => 0x00FD
  | lowMode => 0x00FE
  | highMode => 0x00FF
  | jump a => withAddress 0x1 a
  | call a => withAddress 0x2 a
  | skipIfByte x k => withByte 0x3 x k
  | skipUnlessByte x k => withByte 0x4 x k
  | skipIfEqual x y => digits 0x5 x y 0
  | setByte x k => withByte 0x6 x k
  | addByte x k => withByte 0x7 x k
  | copy x y => digits 0x8 x y 0x0
  | or x y => digits 0x8 x y 0x1
  | and x y => digits 0x8 x y 0x2
  | xor x y => digits 0x8 x y 0x3
  | add x y => digits 0x8 x y 0x4
  | sub x y => digits 0x8 x y 0x5
  | shiftRight x y => digits 0x8 x y 0x6
  | subFrom x y => digits 0x8 x y 0x7
  | shiftLeft x y => digits 0x8 x y 0xE
  | skipUnlessEqual x y => digits 0x9 x y 0
  | setIndex a => withAddress 0xA a
  | jumpOffset a => withAddress 0xB a
  | random x k => withByte 0xC x k
  | draw x y n => digits 0xD x y n.toNat
  | skipIfDown x => withByte 0xE x 0x9E
  | skipUnlessDown x => withByte 0xE x 0xA1
  | getDelay x => withByte 0xF x 0x07
  | waitKey x => withByte 0xF x 0x0A
  | setDelay x => withByte 0xF x 0x15
  | setSound x => withByte 0xF x 0x18
  | addIndex x => withByte 0xF x 0x1E
  | glyph x => withByte 0xF x 0x29
  | decimal x => withByte 0xF x 0x33
  | store x => withByte 0xF x 0x55
  | load x => withByte 0xF x 0x65

/-- Whether the fields fit their digits: addresses three, row counts one. Bytes and registers fit by
their types. -/
def WellFormed : Instruction → Prop
  | scrollDown n => n.toNat < 16
  | draw _ _ n => n.toNat < 16
  | jump a => a.toNat < 4096
  | call a => a.toNat < 4096
  | setIndex a => a.toNat < 4096
  | jumpOffset a => a.toNat < 4096
  | _ => True

end ChipMachine.Instruction
