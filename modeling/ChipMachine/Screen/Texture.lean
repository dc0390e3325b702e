import ChipMachine.Screen.Bitmap
import ChipMachine.Screen.Palette

namespace ChipMachine.Texture

def depth : Nat := 3

def line (palette : Palette) (mode : Mode) (b : Bitmap) (y : Nat) : List UInt8 :=
  (List.range mode.width).flatMap fun x => (palette.colour (b.lit x y)).bytes

def lines (palette : Palette) (mode : Mode) (b : Bitmap) : List (List UInt8) :=
  (List.range mode.height).map (line palette mode b)

/-- The active part of the screen, row after row. -/
def bytes (palette : Palette) (mode : Mode) (b : Bitmap) : List UInt8 :=
  (lines palette mode b).flatten

/-- Bytes go to consecutive places; nothing is written if one of them is outside. -/
def store (buffer : Array UInt8) (start : Nat) (bs : List UInt8) : Option (Array UInt8) :=
  if start + bs.length ≤ buffer.size then
    some (bs.zipIdx.foldl (fun a (b, k) => a.setIfInBounds (start + k) b) buffer)
  else none

/-- Row after row is stored, a pitch apart. -/
def upload (pitch : Nat) : List (List UInt8) → Nat → Array UInt8 → Option (Array UInt8)
  | [], _, buffer => some buffer
  | row :: rows, start, buffer =>
    (store buffer start row).bind (upload pitch rows (start + pitch))

/-- What a buffer shows: the first bytes of each row, without the padding. -/
def visible (width height pitch : Nat) (buffer : Array UInt8) : List UInt8 :=
  (List.range height).flatMap fun y => (buffer.extract (y * pitch) (y * pitch + width)).toList

theorem length_line (palette : Palette) (mode : Mode) (b : Bitmap) (y : Nat) :
    (line palette mode b y).length = depth * mode.width := by
  simp [line, Colour.bytes, depth, List.map_const', Nat.mul_comm]

end ChipMachine.Texture
