namespace ChipMachine

/-- An unending stream of random words, and how many of them have been used. -/
structure Entropy where
  word : Nat → UInt32
  used : Nat

namespace Entropy

/-- The low eight bits of the next word. -/
def chance (e : Entropy) : UInt8 := (e.word e.used).toUInt8

/-- The stream after `n` more words. -/
def skip (e : Entropy) (n : Nat) : Entropy := { e with used := e.used + n }

/-- The words of a list over and over, or zeros if there are none. -/
def cycle (words : List UInt32) : Entropy :=
  let table := words.toArray
  ⟨fun k => table[k % table.size]?.getD 0, 0⟩

theorem skip_skip (e : Entropy) (m n : Nat) : (e.skip m).skip n = e.skip (m + n) := by
  simp [skip, Nat.add_assoc]

end Entropy
end ChipMachine
