namespace ChipMachine

structure Keypad where
  down : Vector Bool 16
  deriving DecidableEq

namespace Keypad

def released : Keypad := ⟨Vector.replicate 16 false⟩

/-- The key that a byte names; only its low half counts. -/
def key (b : UInt8) : Fin 16 := ⟨b.toNat % 16, Nat.mod_lt _ (by decide)⟩

def isDown (p : Keypad) (k : Fin 16) : Bool := p.down.get k

def set (p : Keypad) (k : Fin 16) (pressed : Bool) : Keypad := ⟨p.down.set k pressed⟩

/-- The pressed key with the smallest number. -/
def lowest? (p : Keypad) : Option (Fin 16) := (List.finRange 16).find? p.isDown

theorem isDown_set (p : Keypad) (k j : Fin 16) (pressed : Bool) :
    (p.set k pressed).isDown j = if k = j then pressed else p.isDown j := by
  change (p.down.set k pressed)[j.val] = if k = j then pressed else p.down[j.val]
  simp [Vector.getElem_set, Fin.ext_iff]

theorem set_isDown (p : Keypad) (k : Fin 16) : p.set k (p.isDown k) = p := by
  change Keypad.mk (p.down.set k p.down[k.val]) = p
  rw [Vector.set_getElem_self]

end Keypad
end ChipMachine
