import ChipMachine.Core
import ChipMachine.Fault

namespace ChipMachine.Core

/-- The most calls that can be open at once. The last slot of the stack is never written. -/
def callLimit : Nat := 15

/-- The addresses to return to, the outermost call first. -/
def calls (s : Core) : List UInt16 := s.stack.toList.take s.sp.toNat

/-- Calls the subroutine at an address. -/
def enter (s : Core) (a : UInt16) : Except Fault Core :=
  if h : s.sp.toNat < callLimit then
    .ok { s with
      stack := s.stack.set s.sp.toNat s.pc (Nat.lt_succ_of_lt h)
      sp := s.sp + 1
      pc := a }
  else .error (.fullStack s.currentAddress)

/-- Returns behind the latest call. -/
def leave (s : Core) : Except Fault Core :=
  if s.sp = 0 then .error (.emptyStack s.currentAddress)
  else
    match s.stack[s.sp.toNat - 1]? with
    | some a => .ok { s with sp := s.sp - 1, pc := a }
    | none => .error (.strayStackPointer s.currentAddress)

end ChipMachine.Core
