import ChipMachine.Keyboard
import ChipMachine.Machine.Load
import ChipMachine.Machine.Tick
import ChipMachine.Screen.Texture
import ChipMachine.Session.Device
import ChipMachine.Storage

namespace ChipMachine

inductive Side where
  | width
  | height
  deriving DecidableEq

/-- Why a session ends before its time. -/
inductive SessionError where
  | refused (refusal : Refusal)
  /-- A product that does not fit 32 bits. -/
  | overflow
  /-- A window side that does not fit the device's numbers. -/
  | windowTooLarge (side : Side) (size : Nat)
  | unopened (e : StorageError)
  | unloaded (fault : Fault)
  /-- A picture that does not fit the buffer it was to go into. -/
  | pictureTooLarge
  deriving DecidableEq

namespace SessionError

def message : SessionError → String
  | refused r => if r.part.marksMessages then "SDL error: " ++ r.message else r.message
  | overflow => "attempt to multiply with overflow"
  | windowTooLarge .width size => "Window width (" ++ size.repr ++ ") is too high."
  | windowTooLarge .height size => "Window height (" ++ size.repr ++ ") is too high."
  | unopened e => e.message
  | unloaded fault => fault.message
  | pictureTooLarge => "the picture does not fit the texture"

/-- Whether the program returns with the error. An overflow stops it on the spot instead. -/
def isReturned : SessionError → Bool
  | overflow => false
  | _ => true

end SessionError

inductive Input where
  | down (code : Option Scancode) (again : Bool)
  | up (code : Option Scancode)
  | quit
  | other
  deriving DecidableEq

/-- A machine, the device it is played on, and which of the player's keys are held. -/
structure Session where
  machine : Machine
  palette : Palette
  device : Device
  /-- Whether the buzzer was told to play and not yet to stop. -/
  buzzing : Bool
  /-- Escape is held. -/
  rewinding : Bool
  /-- Space is held: frames follow each other without waiting. -/
  hurrying : Bool

namespace Session

/-- A part of a session: it may end with an error, and what has happened until then stays. -/
abbrev Act := ExceptT SessionError (StateM Session)

def call (c : Call) : Act Unit := do
  let s ← get
  let (refusal, device) := s.device.call c
  set { s with device := device }
  match refusal with
  | some r => throw (.refused r)
  | none => pure ()

def note (h : Happening) : Act Unit := modify fun s => { s with device := s.device.note h }

def record (r : Record) : Act Unit := note (.recorded r)

/-- The playback device hears of an order only if the order changes something. -/
def buzz (order : Buzz) : Act Unit := do
  let s ← get
  match order, s.buzzing with
  | .play, false =>
    call .resume
    modify fun s => { s with buzzing := true }
  | .pause, true =>
    call .pause
    modify fun s => { s with buzzing := false }
  | _, _ => pure ()

def heedEvent : Event → Act Unit
  | .buzz order => buzz order
  | .recorded r => record r

/-- Takes over a machine after an operation, and what the operation reported. -/
def adopt (o : Outcome α) : Act α := do
  modify fun s => { s with machine := o.machine }
  o.events.forM heedEvent
  pure o.answer

def render : Act Unit := do
  let s ← get
  match s.machine.frame? with
  | none => pure ()
  | some bitmap =>
    let mode := s.machine.core.mode
    let rowBytes := Texture.depth * mode.width
    let pitch := rowBytes + s.device.padding
    call (.makeTexture mode.width mode.height)
    call .lockTexture
    match Texture.upload pitch (Texture.lines s.palette mode bitmap) 0
        (Array.replicate (pitch * mode.height) 0) with
    | none => throw .pictureTooLarge
    | some buffer =>
      call .copyTexture
      call (.present ⟨mode.width, mode.height, Texture.visible rowBytes mode.height pitch buffer⟩)
      modify fun s => { s with machine := s.machine.acknowledge }

/-- A key of the keypad, or one of the two keys that steer the session. -/
def holdKey (s : Session) (code : Scancode) (held : Bool) : Session :=
  match code.keypad? with
  | some k =>
    { s with machine := if held then s.machine.press k else s.machine.release k }
  | none =>
    match code with
    | .space => { s with hurrying := held }
    | .escape => { s with rewinding := held }
    | _ => s

def heed (s : Session) : Input → Session
  | .down (some code) _ => s.holdKey code true
  | .up (some code) => s.holdKey code false
  | _ => s

/-- Inputs are heeded up to a quit; tells whether the session goes on. -/
def heedAll (s : Session) : List Input → Bool × Session
  | [] => (true, s)
  | .quit :: _ => (false, s)
  | input :: rest => (s.heed input).heedAll rest

/-- Handles everything the player did since the last poll; tells whether the session goes on. -/
def poll (inputs : List Input) : Act Bool := do
  let s ← get
  let (goesOn, s) := s.heedAll inputs
  set s
  if goesOn then
    set { s with device := s.device.takeSamples }
    call .poll
  pure goesOn

/-- Moves the machine a tick back or forth; tells whether the session goes on. -/
def move : Act Bool := do
  let s ← get
  if s.rewinding then
    let _ ← adopt s.machine.rewind
    pure true
  else
    match (← adopt s.machine.tick) with
    | .ok _ => pure true
    | .error fault =>
      record (.stopping fault)
      pure false

/-- One frame: the picture, the player, the machine. Tells whether the session goes on. -/
def frame (inputs : List Input) : Act Bool := do
  render
  if ← poll inputs then move else pure false

/-- Frame after frame, each with what the player did before it. When the script is used up the
window is closed. -/
def frames : List (List Input) → Act Unit
  | [] => do
    let _ ← frame [.quit]
  | inputs :: later => do
    if ← frame inputs then frames later

end Session
end ChipMachine
