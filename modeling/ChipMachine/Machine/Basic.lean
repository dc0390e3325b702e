import ChipMachine.Core
import ChipMachine.Entropy
import ChipMachine.Journal

namespace ChipMachine

structure Config where
  dialect : Dialect
  perTick : UInt64
  /-- Multiplies the instructions in a tick. -/
  speed : UInt64
  deriving DecidableEq

namespace Config

def standard : Config := ⟨.vip, 10, 1⟩

/-- Instructions in a tick; a product past 64 bits counts as the largest number of 64 bits. -/
def batch (c : Config) : Nat := min (UInt64.size - 1) (c.perTick.toNat * c.speed.toNat)

end Config

structure Machine where
  core : Core
  /-- The cores at the beginning of the latest ticks, the latest first. -/
  history : List Core
  config : Config
  entropy : Entropy

/-- What an operation leaves behind: the machine, what was reported in order, and the answer. -/
structure Outcome (α : Type) where
  machine : Machine
  events : List Event
  answer : α

namespace Machine

/-- Ticks that can be taken back: ten seconds of them. -/
def historyLimit : Nat := 600

def ticksPerSecond : Nat := 60

def tickNanoseconds : Nat := 1000000000 / ticksPerSecond

def fresh (config : Config) (entropy : Entropy) : Machine :=
  ⟨.fresh config.dialect, [], config, entropy⟩

/-- The picture, if it has to be shown again. -/
def frame? (m : Machine) : Option Bitmap := if m.core.dirty then some m.core.bitmap else none

def acknowledge (m : Machine) : Machine := { m with core := { m.core with dirty := false } }

def setKeypad (m : Machine) (keypad : Keypad) : Machine :=
  { m with core := { m.core with keypad := keypad } }

def press (m : Machine) (k : Fin 16) : Machine := m.setKeypad (m.core.keypad.set k true)

def release (m : Machine) (k : Fin 16) : Machine := m.setKeypad (m.core.keypad.set k false)

def setSpeed (m : Machine) (speed : UInt64) : Machine :=
  { m with config := { m.config with speed := speed } }

end Machine
end ChipMachine
