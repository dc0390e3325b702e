namespace ChipMachine

/-- What a program's bytes are read from. Reads give pieces of any length, may be interrupted, and
end with the end of the data, with a failure, or never. -/
inductive ByteSource where
  | ended
  | failed (reason : String)
  | interrupted (next : ByteSource)
  /-- Reads give bytes of this piece until it is used up. -/
  | piece (first : UInt8) (others : List UInt8) (next : ByteSource)
  | endless (byte : Nat → UInt8)

namespace ByteSource

/-- All bytes in one piece, then the end. -/
def ofList : List UInt8 → ByteSource
  | [] => .ended
  | b :: bs => .piece b bs .ended

/-- What a reader took, and why it could not go on if it could not. -/
structure Taken where
  bytes : List UInt8
  failure : Option String
  deriving DecidableEq

/-- Reads until the limit is reached or the source ends or fails. A failure behind the limit is
never met. -/
def take (limit : Nat) : ByteSource → Taken
  | .ended => ⟨[], none⟩
  | .failed reason => if limit = 0 then ⟨[], none⟩ else ⟨[], some reason⟩
  | .interrupted next => next.take limit
  | .piece first others next =>
    let given := (first :: others).take limit
    let rest := next.take (limit - given.length)
    ⟨given ++ rest.bytes, rest.failure⟩
  | .endless byte => ⟨(List.range limit).map byte, none⟩

end ByteSource
end ChipMachine
