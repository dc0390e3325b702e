namespace ChipMachine.Text

/-- One ASCII digit or more, nothing else. -/
def digits? (s : List Char) : Option Nat :=
  if s.isEmpty || ! s.all Char.isDigit then none
  else some (s.foldl (fun n c => 10 * n + (c.toNat - '0'.toNat)) 0)

/-- Digits, with a plus sign before them or none. -/
def natural? : List Char → Option Nat
  | '+' :: s => digits? s
  | s => digits? s

/-- Digits, with a sign of either kind before them or none. -/
def integer? : List Char → Option Int
  | '-' :: s => (digits? s).map fun n => -(n : Int)
  | s => (natural? s).map fun n => (n : Int)

end ChipMachine.Text
