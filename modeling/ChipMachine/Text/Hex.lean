namespace ChipMachine.Text.Hex

/-- The digits of `n` in base sixteen, most significant first, at least `width` of them. -/
def digits (width n : Nat) : List Char :=
  (Nat.toDigits 16 n).leftpad width '0'

def upper (width n : Nat) : String := String.ofList ((digits width n).map Char.toUpper)

end ChipMachine.Text.Hex
