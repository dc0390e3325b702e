import ChipMachine.Session.Run
import ChipMachine.Text.Numeral

namespace ChipMachine.CommandLine

inductive Setting where
  | rom
  | spec
  | speed
  | ipf
  | color
  | scale
  deriving DecidableEq

/-- Why a command line gives no options. -/
inductive Stop where
  | missingRom
  /-- A value is absent, or the program's path is empty. -/
  | noValue (setting : Setting)
  | badValue (setting : Setting) (text : String)
  | unknownArgument (text : String)
  | conflict (setting : Setting)
  | unneededValue (text : String)
  | help
  | version
  deriving DecidableEq

structure Options where
  rom : String
  dialect : Dialect
  speed : UInt64
  perTick : UInt64
  palette : Palette
  scale : UInt32
  deriving DecidableEq

structure Draft where
  rom : Option String
  dialect : Option Dialect
  speed : Option UInt64
  perTick : Option UInt64
  palette : Option Palette
  scale : Option UInt32

def Draft.empty : Draft := ⟨none, none, none, none, none, none⟩

def Draft.has (d : Draft) : Setting → Bool
  | .rom => d.rom.isSome
  | .spec => d.dialect.isSome
  | .speed => d.speed.isSome
  | .ipf => d.perTick.isSome
  | .color => d.palette.isSome
  | .scale => d.scale.isSome

/-- A count of 64 bits without a minus sign. -/
def count? (text : String) : Option UInt64 :=
  (Text.natural? text.toList).bind fun n => if n < UInt64.size then some (UInt64.ofNat n) else none

/-- A size of 32 bits. Zero may have a minus sign. -/
def size? (text : String) : Option UInt32 :=
  (Text.integer? text.toList).bind fun n =>
    if 0 ≤ n ∧ n.toNat < UInt32.size then some (UInt32.ofNat n.toNat) else none

/-- A setting takes its value: it must not have one already, and the text must say one. -/
def Draft.give (d : Draft) (setting : Setting) (text : String) : Except Stop Draft :=
  if d.has setting then .error (.conflict setting)
  else
    let filled : Option Draft :=
      match setting with
      | .rom => if text = "" then none else some { d with rom := some text }
      | .spec => (Dialect.ofName? text).map fun v => { d with dialect := some v }
      | .speed => (count? text).map fun v => { d with speed := some v }
      | .ipf => (count? text).map fun v => { d with perTick := some v }
      | .color => (Palette.ofName? text).map fun v => { d with palette := some v }
      | .scale => (size? text).map fun v => { d with scale := some v }
    match filled with
    | some d => .ok d
    | none =>
      if text = "" ∧ setting = .rom then .error (.noValue setting)
      else .error (.badValue setting text)

/-- A setting whose value stands apart from its name. The value is looked at only when the next
known name or the end of the line is reached. -/
inductive Pending where
  | nothing
  | awaits (setting : Setting)
  | holds (setting : Setting) (text : String)

def settle (d : Draft) : Pending → Except Stop Draft
  | .nothing => .ok d
  | .awaits setting => .error (.noValue setting)
  | .holds setting text => d.give setting text

inductive Name where
  | setting (s : Setting)
  | stop (s : Stop)

def names : List (String × Name) :=
  [("rom", .setting .rom), ("spec", .setting .spec), ("speed", .setting .speed),
   ("ipf", .setting .ipf), ("color", .setting .color), ("scale", .setting .scale),
   ("help", .stop .help), ("version", .stop .version)]

/-- What an argument looks like, before anything is known about what it stands behind. -/
inductive Shape where
  | endOfOptions
  | long (name : String) (value : Option String)
  | short (letter : Char)
  | plain

/-- One dash alone is a plain argument. -/
def shape (argument : String) : Shape :=
  match argument.toList with
  | ['-', '-'] => .endOfOptions
  | '-' :: '-' :: rest =>
    let name := rest.takeWhile (· != '=')
    match rest.dropWhile (· != '=') with
    | [] => .long (String.ofList name) none
    | _ :: value => .long (String.ofList name) (some (String.ofList value))
  | '-' :: letter :: _ => .short letter
  | _ => .plain

/-- Help and version come into force when everything before them is in order. -/
def stopAfter (d : Draft) (pending : Pending) (stop : Stop) : Except Stop Draft :=
  match settle d pending with
  | .ok _ => .error stop
  | .error e => .error e

def read (d : Draft) (pending : Pending) : List String → Except Stop Draft
  | [] => settle d pending
  | argument :: rest =>
    match shape argument with
    | .endOfOptions =>
      match rest with
      | [] => settle d pending
      | next :: _ => .error (.unknownArgument next)
    | .long name value =>
      match names.lookup name, value with
      | none, _ => .error (.unknownArgument argument)
      | some (.stop _), some text => .error (.unneededValue text)
      | some (.stop stop), none => stopAfter d pending stop
      | some (.setting s), none => do
        let d ← settle d pending
        read d (.awaits s) rest
      | some (.setting s), some text => do
        let d ← settle d pending
        let d ← d.give s text
        read d .nothing rest
    | .short 'h' => stopAfter d pending .help
    | .short 'V' => stopAfter d pending .version
    | .short _ => .error (.unknownArgument argument)
    | .plain =>
      match pending with
      | .awaits s => read d (.holds s argument) rest
      | _ => .error (.unknownArgument argument)

/-- That there is no program is noticed last. -/
def Draft.complete (d : Draft) : Except Stop Options :=
  match d.rom with
  | none => .error .missingRom
  | some rom =>
    .ok {
      rom := rom
      dialect := d.dialect.getD Config.standard.dialect
      speed := d.speed.getD Config.standard.speed
      perTick := d.perTick.getD Config.standard.perTick
      palette := d.palette.getD .green
      scale := d.scale.getD 10 }

/-- The options that the arguments behind the program's own name spell out. -/
def parse (arguments : List String) : Except Stop Options := do
  let d ← read .empty .nothing arguments
  d.complete

def Options.setup (o : Options) : Setup where
  config := ⟨o.dialect, o.perTick, o.speed⟩
  palette := o.palette
  scale := o.scale
  path := o.rom

end ChipMachine.CommandLine
