import ChipMachine.Session.Basic

namespace ChipMachine.Script

/-- A key that goes down is written `+Name`, one that goes up `-Name`. -/
def word (text : List Char) : Input :=
  match text with
  | '+' :: name => .down (some (Scancode.ofName (String.ofList name))) false
  | '-' :: name => .up (some (Scancode.ofName (String.ofList name)))
  | _ => if text = "quit".toList then .quit else .other

/-- What the player does before one frame. -/
def frame (line : String) : List Input :=
  ((line.toList.splitOnP Text.isBlank).filter (! ·.isEmpty)).map word

end ChipMachine.Script
