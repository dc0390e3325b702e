import ChipMachine.Journal
import ChipMachine.Tone

namespace ChipMachine

/-- What is on show: three bytes a pixel, row after row. -/
structure Picture where
  width : Nat
  height : Nat
  pixels : List UInt8
  deriving DecidableEq

inductive Part where
  | library
  | video
  | window
  | renderer
  | events
  | audio
  | playback
  | texture
  | lock
  | copy
  deriving DecidableEq

/-- Messages of these parts are marked as the device library's own. -/
def Part.marksMessages : Part → Bool
  | window | renderer | texture => true
  | _ => false

inductive Call where
  | startLibrary
  | startVideo
  | makeWindow (title : String) (width height : Nat)
  | makeRenderer
  | startEvents
  | startAudio
  | openPlayback (frequency channels : Nat)
  | makeTexture (width height : Nat)
  | lockTexture
  | copyTexture
  | present (picture : Picture)
  | resume
  | pause
  | poll
  deriving DecidableEq

def Call.part? : Call → Option Part
  | startLibrary => some .library
  | startVideo => some .video
  | makeWindow .. => some .window
  | makeRenderer => some .renderer
  | startEvents => some .events
  | startAudio => some .audio
  | openPlayback .. => some .playback
  | makeTexture .. => some .texture
  | lockTexture => some .lock
  | copyTexture => some .copy
  | present _ | resume | pause | poll => none

structure Refusal where
  part : Part
  message : String
  deriving DecidableEq

/-- The calls of one part fail once `after` of them have succeeded. -/
structure Breakdown where
  refusal : Refusal
  after : Nat
  deriving DecidableEq

/-- Whatever can be noticed from outside during a session. -/
inductive Happening where
  | called (call : Call) (refusal : Option Refusal)
  | recorded (record : Record)
  | sampled (samples : List Float32)
  | printed (text : String)
  deriving DecidableEq

/-- A device is seen through the calls made to it, and may be told to refuse some of them. -/
structure Device where
  breakdown : Option Breakdown
  /-- The rate at which playback really runs, if not the one asked for. -/
  rate : Option Int32
  /-- Samples taken at the end of a poll while the tone is on. -/
  pull : Nat
  /-- Unused bytes behind each row of a locked texture. -/
  padding : Nat
  tone : Tone
  sounding : Bool
  /-- What has happened, the latest first. -/
  past : List Happening

namespace Device

def note (d : Device) (h : Happening) : Device := { d with past := h :: d.past }

def refusal? (d : Device) (c : Call) : Option Refusal :=
  match d.breakdown with
  | some b => if c.part? = some b.refusal.part ∧ b.after = 0 then some b.refusal else none
  | none => none

/-- A call that goes through brings a breakdown of its part nearer. -/
def wear (d : Device) (c : Call) : Device :=
  match d.breakdown with
  | some b =>
    if c.part? = some b.refusal.part then
      { d with breakdown := some { b with after := b.after - 1 } }
    else d
  | none => d

/-- What a successful call changes on the device itself. -/
def react (d : Device) : Call → Device
  | .openPlayback frequency _ =>
    { d with tone := Tone.atRate (d.rate.getD (Int32.ofNat frequency)), sounding := false }
  | .resume => { d with sounding := true }
  | .pause => { d with sounding := false }
  | _ => d

def call (d : Device) (c : Call) : Option Refusal × Device :=
  match d.refusal? c with
  | some refusal => (some refusal, d.note (.called c (some refusal)))
  | none => (none, ((d.wear c).react c).note (.called c none))

/-- At the end of a poll the device takes the samples it will play next. -/
def takeSamples (d : Device) : Device :=
  if d.sounding then
    let (samples, tone) := d.tone.fill d.pull
    { d with tone := tone }.note (.sampled samples)
  else d

def happenings (d : Device) : List Happening := d.past.reverse

/-- The calls made, refused ones included, in order. -/
def calls (d : Device) : List Call :=
  d.happenings.filterMap fun
    | .called c _ => some c
    | _ => none

end Device
end ChipMachine
