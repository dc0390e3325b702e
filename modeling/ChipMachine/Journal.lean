import ChipMachine.Dialect
import ChipMachine.Fault
import ChipMachine.Instruction.Listing
import ChipMachine.Memory
import ChipMachine.Screen.Mode

namespace ChipMachine

inductive Level where
  | error
  | warn
  | info
  | debug
  | trace
  deriving DecidableEq

namespace Level

def title : Level → String
  | error => "ERROR"
  | warn => "WARN"
  | info => "INFO"
  | debug => "DEBUG"
  | trace => "TRACE"

/-- Records about the run as a whole; the others follow single instructions. -/
def isSummary : Level → Bool
  | error | warn | info => true
  | debug | trace => false

end Level

inductive Record where
  | loaded (size : Nat) (dialect : Dialect)
  /-- The program was longer than memory has room for. -/
  | truncated
  /-- The registers as they were just before an instruction. -/
  | executing (address : UInt16) (word : Word) (instruction : Instruction) (v : Vector UInt8 16)
      (i : UInt16)
  | switching (mode : Mode)
  | halted (address : UInt16)
  | running (name : String)
  | stopping (fault : Fault)
  deriving DecidableEq

namespace Record

def level : Record → Level
  | loaded .. => .info
  | truncated => .warn
  | executing .. => .trace
  | switching .. => .debug
  | halted .. => .debug
  | running .. => .info
  | stopping .. => .error

/-- The registers between brackets, two digits each. -/
def registers (v : Vector UInt8 16) : String :=
  "v[" ++ ", ".intercalate (v.toList.map fun b => Text.Hex.upper 2 b.toNat) ++ "]"

def text : Record → String
  | loaded size dialect => "loaded " ++ size.repr ++ " byte program for " ++ dialect.title
  | truncated =>
    "program is over " ++ Memory.programCapacity.repr ++ " bytes; the rest will not be loaded"
  | executing address word instruction v i =>
    " ".intercalate [Text.Hex.upper 4 address.toNat, Text.Hex.upper 4 word.toNat,
      instruction.listing, registers v, "i" ++ Text.Hex.upper 4 i.toNat]
  | switching mode => "switching to " ++ mode.title ++ " resolution"
  | halted address => "halted at " ++ Text.Hex.upper 4 address.toNat
  | running name => "running " ++ name
  | stopping fault => "stopping: " ++ fault.message

def line (r : Record) : String := r.level.title ++ " " ++ r.text

end Record

/-- An order to the buzzer, given once in each tick. -/
inductive Buzz where
  | play
  | pause
  deriving DecidableEq

inductive Event where
  | buzz (order : Buzz)
  | recorded (record : Record)
  deriving DecidableEq

namespace Event

def buzz? : Event → Option Buzz
  | buzz order => some order
  | recorded _ => none

def record? : Event → Option Record
  | buzz _ => none
  | recorded record => some record

end Event
end ChipMachine
