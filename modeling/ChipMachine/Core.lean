import ChipMachine.Dialect
import ChipMachine.Keypad
import ChipMachine.Memory
import ChipMachine.Screen.Bitmap
import ChipMachine.Word

namespace ChipMachine

/-- All that instructions act on. -/
structure Core where
  /-- V0 to VF. VF is also the carry, borrow and collision flag. -/
  v : Vector UInt8 16
  /-- The index register, an address for block transfers and sprites. -/
  i : UInt16
  pc : UInt16
  sp : UInt8
  delay : UInt8
  sound : UInt8
  /-- Return addresses; those from `sp` on are left over from earlier calls. -/
  stack : Vector UInt16 16
  memory : Memory
  bitmap : Bitmap
  mode : Mode
  /-- Whether the screen changed since it was last shown. -/
  dirty : Bool
  keypad : Keypad
  dialect : Dialect
  deriving DecidableEq

namespace Core

def fresh (dialect : Dialect) : Core where
  v := Vector.replicate 16 0
  i := 0
  pc := UInt16.ofNat Memory.programStart
  sp := 0
  delay := 0
  sound := 0
  stack := Vector.replicate 16 0
  memory := .fresh
  bitmap := .blank
  mode := .low
  dirty := false
  keypad := .released
  dialect := dialect

def conventions (s : Core) : Conventions := s.dialect.conventions

/-- The word under the program counter. -/
def fetch (s : Core) : Word := Word.ofBytes (s.memory.read s.pc) (s.memory.read (s.pc + 1))

/-- A program is read from where it was laid over memory. -/
theorem fetch_overlay {s : Core} {memory : Memory} {program : List UInt8} {a : UInt16}
    {high low : UInt8} (hmemory : s.memory = memory.overlay program) (hpc : s.pc = a)
    (ha : Memory.programStart ≤ a.toNat ∧ a.toNat + 1 < Memory.size)
    (hhigh : program[a.toNat - Memory.programStart]? = some high)
    (hlow : program[a.toNat - Memory.programStart + 1]? = some low) :
    s.fetch = Word.ofBytes high low := by
  have hsize : a.toNat + 1 < 4096 := ha.2
  have hnext : (a + 1).toNat = a.toNat + 1 := by
    rw [UInt16.toNat_add]
    exact Nat.mod_eq_of_lt (Nat.lt_trans hsize (by decide))
  have hfirst : a.toNat % Memory.size = a.toNat := Nat.mod_eq_of_lt (Nat.lt_of_succ_lt hsize)
  have hsecond : (a.toNat + 1) % Memory.size = a.toNat + 1 := Nat.mod_eq_of_lt hsize
  rw [fetch, hmemory, hpc, Memory.read_overlay, Memory.read_overlay, hnext, hfirst, hsecond,
    if_pos ha.1, if_pos (Nat.le_succ_of_le ha.1), Nat.sub_add_comm ha.1, hhigh, hlow]
  rfl

def advance (s : Core) : Core := { s with pc := s.pc + 2 }

/-- The address of the instruction that the program counter has just passed. -/
def currentAddress (s : Core) : UInt16 := s.pc - 2

def reg (s : Core) (x : Reg) : UInt8 := s.v.get x

def put (s : Core) (x : Reg) (b : UInt8) : Core := { s with v := s.v.set x b }

theorem reg_put (s : Core) (x y : Reg) (b : UInt8) :
    (s.put x b).reg y = if x = y then b else s.reg y := by
  change (s.v.set x b)[y.val] = if x = y then b else s.v[y.val]
  simp [Vector.getElem_set, Fin.ext_iff]

def flag (s : Core) (c : Bool) : Core := s.put .flag (if c then 1 else 0)

def skipIf (s : Core) (c : Bool) : Core := if c then s.advance else s

/-- The screen is replaced and has to be shown again. -/
def paint (s : Core) (b : Bitmap) : Core := { s with bitmap := b, dirty := true }

/-- The timers of one tick: each goes down by one until it is zero. -/
def countDown (s : Core) : Core :=
  { s with
    delay := if s.delay = 0 then 0 else s.delay - 1
    sound := if s.sound = 0 then 0 else s.sound - 1 }

end Core
end ChipMachine
