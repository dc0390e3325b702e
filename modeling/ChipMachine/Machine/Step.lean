import ChipMachine.Instruction.Code
import ChipMachine.Instruction.Effect
import ChipMachine.Machine.Basic

namespace ChipMachine.Machine

/-- What comes of an instruction, given its effect on the core. A fault changes nothing. -/
def conclude (m : Machine) (i : Instruction) : Except Fault Core → Outcome (Except Fault Flow)
  | .error fault => ⟨m, [], .error fault⟩
  | .ok core =>
    ⟨{ m with core := core, entropy := m.entropy.skip i.draws },
      i.mode?.toList.map fun mode => .recorded (.switching mode), .ok i.flow⟩

def perform (m : Machine) (i : Instruction) : Outcome (Except Fault Flow) :=
  m.conclude i (i.execute m.entropy.chance m.core)

def passed (m : Machine) : Machine := { m with core := m.core.advance }

/-- The record of an instruction, made before its execution. -/
def seen (m : Machine) (word : Word) (i : Instruction) : Event :=
  .recorded (.executing m.core.pc word i m.core.v m.core.i)

/-- Runs a word as if the program counter had pointed at it. The counter moves on first, so it has
moved also when the word stands for nothing. -/
def obey (m : Machine) (word : Word) : Outcome (Except Fault Flow) :=
  match Instruction.decode word with
  | none => ⟨m.passed, [], .error (.unknownWord word m.core.pc)⟩
  | some i =>
    let done := m.passed.perform i
    { done with events := m.seen word i :: done.events }

def step (m : Machine) : Outcome (Except Fault Flow) := m.obey m.core.fetch

end ChipMachine.Machine
