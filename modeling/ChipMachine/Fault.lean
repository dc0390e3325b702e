import ChipMachine.Text.Hex
import ChipMachine.Word

namespace ChipMachine

/-- What can keep the machine from going on. -/
inductive Fault where
  /-- A word that stands for no instruction, and where it was found. -/
  | unknownWord (word : Word) (address : UInt16)
  | emptyStack (address : UInt16)
  /-- A call with fifteen calls open. -/
  | fullStack (address : UInt16)
  | unreadable (reason : String)
  /-- A return through a slot that the stack does not have. No program gets here: it takes a stack
  pointer that was set from outside. -/
  | strayStackPointer (address : UInt16)
  deriving DecidableEq

namespace Fault

/-- An address in at least three hexadecimal digits. -/
def place (address : UInt16) : String := "0x" ++ Text.Hex.upper 3 address.toNat

def message : Fault → String
  | unknownWord word address =>
    "unknown opcode 0x" ++ Text.Hex.upper 4 word.toNat ++ " at " ++ place address
  | emptyStack address => "return with an empty stack at " ++ place address
  | fullStack address => "call with a full stack at " ++ place address
  | unreadable reason => "unable to read program: " ++ reason
  | strayStackPointer address => "return past the end of the stack at " ++ place address

end Fault
end ChipMachine
