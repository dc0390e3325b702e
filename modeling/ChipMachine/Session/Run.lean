import ChipMachine.Session.Basic

namespace ChipMachine

structure Setup where
  config : Config
  palette : Palette
  /-- Window pixels for each pixel of the low mode. -/
  scale : UInt32
  path : String

namespace Setup

def title (setup : Setup) : String := "chip8 - " ++ setup.config.dialect.title

end Setup

namespace Session

/-- The device takes signed sizes. -/
def sizeLimit : Nat := 0x7FFFFFFF

/-- A window of the given size, if the device can have one. -/
def makeWindow (title : String) (width height : Nat) : Act Unit :=
  if sizeLimit < width then throw (.windowTooLarge .width width)
  else if sizeLimit < height then throw (.windowTooLarge .height height)
  else call (.makeWindow title width height)

def multiply (a b : UInt32) : Act UInt32 :=
  if a.toNat * b.toNat < UInt32.size then pure (a * b) else throw .overflow

/-- A window with room for the low mode at the scale. -/
def openWindow (setup : Setup) : Act Unit := do
  let width ← multiply (UInt32.ofNat Mode.low.width) setup.scale
  let height ← multiply (UInt32.ofNat Mode.low.height) setup.scale
  makeWindow setup.title width.toNat height.toNat

def startDevice (setup : Setup) : Act Unit := do
  call .startLibrary
  call .startVideo
  openWindow setup
  call .makeRenderer
  call .startEvents
  call .startAudio
  call (.openPlayback Tone.sampleRate 1)

/-- The program is opened only when the device is ready. -/
def startProgram (setup : Setup) (folder : Folder) : Act Unit := do
  match folder.openFile setup.path with
  | .error e => throw (.unopened e)
  | .ok source =>
    let s ← get
    let loading ← adopt (s.machine.load source)
    match loading.result with
    | .error fault => throw (.unloaded fault)
    | .ok () =>
      record (.running setup.path)
      note (.printed (Keyboard.controls ++ "\n"))

/-- Runs a program until the player quits or the machine faults. -/
def play (setup : Setup) (folder : Folder) (script : List (List Input)) : Act Unit := do
  startDevice setup
  startProgram setup folder
  frames script

def fresh (setup : Setup) (device : Device) (entropy : Entropy) : Session where
  machine := .fresh setup.config entropy
  palette := setup.palette
  device := device
  buzzing := false
  rewinding := false
  hurrying := false

/-- How a session ended, and the session at its end. -/
def run (setup : Setup) (folder : Folder) (script : List (List Input)) (device : Device)
    (entropy : Entropy) : Except SessionError Unit × Session :=
  (play setup folder script).run.run (fresh setup device entropy)

end Session

namespace Device

def idle (breakdown : Option Breakdown) (rate : Option Int32) (pull padding : Nat) : Device where
  breakdown := breakdown
  rate := rate
  pull := pull
  padding := padding
  tone := Tone.atRate (Int32.ofNat Tone.sampleRate)
  sounding := false
  past := []

end Device
end ChipMachine
