import ChipMachine.ByteSource
import ChipMachine.Machine.Basic

namespace ChipMachine.Machine

/-- Whether a program was loaded, and how many bytes its source gave. -/
structure Loading where
  result : Except Fault Unit
  consumed : Nat

/-- Reads one byte more than fits, to notice a program that is too long. Memory changes only when
the reading is done. -/
def load (m : Machine) (source : ByteSource) : Outcome Loading :=
  let taken := source.take (Memory.programCapacity + 1)
  match taken.failure with
  | some reason => ⟨m, [], ⟨.error (.unreadable reason), taken.bytes.length⟩⟩
  | none =>
    let program := taken.bytes.take Memory.programCapacity
    let warning :=
      if Memory.programCapacity < taken.bytes.length then [Event.recorded .truncated] else []
    ⟨{ m with core := { m.core with memory := m.core.memory.overlay program } },
      warning ++ [.recorded (.loaded program.length m.config.dialect)],
      ⟨.ok (), taken.bytes.length⟩⟩

/-- Registers, timers and screen stay. -/
def clearProgram (m : Machine) : Machine :=
  { m with core := { m.core with memory := m.core.memory.clearProgram } }

end ChipMachine.Machine
