import ChipMachine.Font

namespace ChipMachine

structure Memory where
  bytes : Vector UInt8 4096
  deriving DecidableEq

namespace Memory

def size : Nat := 4096

/-- Programs are loaded here and start here. -/
def programStart : Nat := 0x200

/-- The most bytes that a program can have. -/
def programCapacity : Nat := size - programStart

/-- An address wraps: only its low twelve bits count. -/
def cell (address : UInt16) : Fin 4096 := ⟨address.toNat % 4096, Nat.mod_lt _ (by decide)⟩

def read (m : Memory) (address : UInt16) : UInt8 := m.bytes[cell address]

def write (m : Memory) (address : UInt16) (b : UInt8) : Memory :=
  ⟨m.bytes.set (cell address) b⟩

/-- The `n` bytes from an address on. -/
def readBlock (m : Memory) (address : UInt16) (n : Nat) : List UInt8 :=
  (List.range n).map fun k => m.read (address + UInt16.ofNat k)

/-- Bytes are stored one by one from an address on. -/
def writeBlock (m : Memory) : List UInt8 → UInt16 → Memory
  | [], _ => m
  | b :: bs, address => (m.write address b).writeBlock bs (address + 1)

/-- The font at the bottom, zeros above it. -/
def fresh : Memory := ⟨Vector.ofFn fun k => Font.glyphs[k]?.getD 0⟩

/-- A program lies over what was in memory; bytes past the end of memory are left out. -/
def overlay (m : Memory) (program : List UInt8) : Memory :=
  let image := program.toArray
  ⟨Vector.ofFn fun k =>
    if programStart ≤ k.val then image[k.val - programStart]?.getD m.bytes[k] else m.bytes[k]⟩

/-- Zeros from the program start to the end; the font stays. -/
def clearProgram (m : Memory) : Memory :=
  ⟨Vector.ofFn fun k => if programStart ≤ k.val then 0 else m.bytes[k]⟩

theorem cell_eq_iff {a b : UInt16} : cell a = cell b ↔ a.toNat % size = b.toNat % size := by
  simp [cell, size]

theorem read_write (m : Memory) (a b : UInt16) (x : UInt8) :
    (m.write a x).read b = if cell a = cell b then x else m.read b := by
  simp [read, write, Vector.getElem_set, Fin.ext_iff]

theorem read_fresh (a : UInt16) : fresh.read a = Font.glyphs[a.toNat % size]?.getD 0 := by
  simp [read, fresh, cell, size]

theorem read_overlay (m : Memory) (program : List UInt8) (a : UInt16) :
    (m.overlay program).read a =
      if programStart ≤ a.toNat % size then
        program[a.toNat % size - programStart]?.getD (m.read a)
      else m.read a := by
  change (Vector.ofFn _)[(cell a).val] = _
  rw [Vector.getElem_ofFn]
  simp only [List.getElem?_toArray]
  rfl

theorem length_readBlock (m : Memory) (a : UInt16) (n : Nat) : (m.readBlock a n).length = n := by
  simp [readBlock]

end Memory
end ChipMachine
