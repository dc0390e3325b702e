namespace ChipMachine

namespace Binary32

def undefinedBits : UInt32 := 0x7FC00000

/-- The bits of the part of a number behind the point, with the number's sign. A number below one
is its own fraction, one of 2 ^ 23 or more has none, and an infinity's is undefined.

Between them a number is `m / 2 ^ k` with `m < 2 ^ 24` and `0 < k < 24`, and its fraction
`m % 2 ^ k / 2 ^ k` is found without rounding. -/
def fractionBits (bits : UInt32) : UInt32 :=
  let n := bits.toNat
  let sign := n / 0x80000000 * 0x80000000
  let exponent := n / 0x800000 % 256
  if exponent = 255 then undefinedBits
  else if exponent < 127 then bits
  else if 150 ≤ exponent then UInt32.ofNat sign
  else
    let k := 150 - exponent
    let rest := (0x800000 + n % 0x800000) % 1 <<< k
    if rest = 0 then UInt32.ofNat sign
    else
      let top := rest.log2
      UInt32.ofNat (sign + (127 + top - k) * 0x800000 + (rest <<< (23 - top) - 0x800000))

/-- The remainder of a division by one, rounded toward zero. -/
def fraction (x : Float32) : Float32 := Float32.ofBits (fractionBits x.toBits)

end Binary32

/-- A square wave, made sample by sample. -/
structure Tone where
  step : Float32
  /-- The place in the wave, from 0 to 1 when the step is not negative. -/
  phase : Float32
  volume : Float32
  deriving DecidableEq

namespace Tone

/-- Samples per second that the playback device is asked for. -/
def sampleRate : Nat := 44100

def pitch : Float32 := 440

def loudness : Float32 := 0.15

/-- The tone at the beginning of its wave, for a device that plays so many samples a second. -/
def atRate (frequency : Int32) : Tone := ⟨pitch / frequency.toFloat32, 0, loudness⟩

/-- The first half of the wave is high. -/
def sample (t : Tone) : Float32 := if t.phase ≤ 0.5 then t.volume else -t.volume

def advance (t : Tone) : Tone := { t with phase := Binary32.fraction (t.phase + t.step) }

/-- Samples made before come last first in `past`. -/
def fillOnto : Nat → Tone → List Float32 → List Float32 × Tone
  | 0, t, past => (past.reverse, t)
  | n + 1, t, past => fillOnto n t.advance (t.sample :: past)

/-- The next `n` samples, and the tone after them. -/
def fill (t : Tone) (n : Nat) : List Float32 × Tone := fillOnto n t []

theorem fillOnto_eq (n : Nat) (t : Tone) (past : List Float32) :
    fillOnto n t past = (past.reverse ++ (t.fill n).1, (t.fill n).2) := by
  unfold fill
  induction n generalizing t past with
  | zero => simp [fillOnto]
  | succ n ih =>
    rw [fillOnto, fillOnto, ih t.advance (t.sample :: past), ih t.advance [t.sample]]
    simp

theorem fill_succ (t : Tone) (n : Nat) :
    t.fill (n + 1) = (t.sample :: (t.advance.fill n).1, (t.advance.fill n).2) := by
  rw [fill, fillOnto, fillOnto_eq]
  simp

/-- How the samples are cut into buffers does not matter. -/
theorem fill_add (t : Tone) (m n : Nat) :
    t.fill (m + n) = ((t.fill m).1 ++ ((t.fill m).2.fill n).1, ((t.fill m).2.fill n).2) := by
  induction m generalizing t with
  | zero => simp [fill, fillOnto]
  | succ m ih => rw [Nat.succ_add, fill_succ, fill_succ, ih]; rfl

end Tone
end ChipMachine
