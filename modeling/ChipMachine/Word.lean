namespace ChipMachine

/-- Four hexadecimal digits. The first is the family; the others name registers, a row count, a byte
or an address. -/
abbrev Word := UInt16

abbrev Reg := Fin 16

/-- VF, which is also the carry, borrow and collision flag. -/
def Reg.flag : Reg := Fin.last 15

namespace Word

def family (w : Word) : Fin 16 := ⟨w.toNat / 4096, by have := w.toNat_lt; omega⟩

def x (w : Word) : Reg := ⟨w.toNat / 256 % 16, Nat.mod_lt _ (by decide)⟩

def y (w : Word) : Reg := ⟨w.toNat / 16 % 16, Nat.mod_lt _ (by decide)⟩

def n (w : Word) : Fin 16 := ⟨w.toNat % 16, Nat.mod_lt _ (by decide)⟩

def byte (w : Word) : UInt8 := w.toUInt8

def address (w : Word) : UInt16 := UInt16.ofNat (w.toNat % 4096)

/-- The byte at the lower address is the more significant one. -/
def ofBytes (high low : UInt8) : Word := UInt16.ofNat (256 * high.toNat + low.toNat)

theorem toNat_ofBytes (high low : UInt8) :
    (ofBytes high low).toNat = 256 * high.toNat + low.toNat := by
  have := high.toNat_lt
  have := low.toNat_lt
  simp only [ofBytes, UInt16.toNat_ofNat']
  omega

theorem toNat_byte (w : Word) : w.byte.toNat = w.toNat % 256 := by
  simp [byte]

end Word
end ChipMachine
