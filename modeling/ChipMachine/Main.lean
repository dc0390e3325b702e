import ChipMachine.CommandLine
import ChipMachine.Session.Script

namespace ChipMachine

def usage : String :=
  "Play CHIP-8, SUPER-CHIP and XO-CHIP programs\n\n" ++
  "Options:\n" ++
  "  --rom <path>     program image\n" ++
  "  --spec <name>    original, super or xo [default: original]\n" ++
  "  --speed <n>      multiplies the instructions in a frame [default: 1]\n" ++
  "  --ipf <n>        instructions in a frame at speed 1 [default: 10]\n" ++
  "  --color <name>   black, yellow or green [default: green]\n" ++
  "  --scale <n>      window pixels for each low resolution pixel [default: 10]\n" ++
  "  -h, --help\n" ++
  "  -V, --version"

def CommandLine.Stop.message : CommandLine.Stop → String
  | .missingRom => "error: --rom is required"
  | .noValue _ => "error: a value is missing"
  | .badValue _ text => "error: invalid value: " ++ text
  | .unknownArgument text => "error: unexpected argument: " ++ text
  | .conflict _ => "error: an option was given twice"
  | .unneededValue text => "error: unexpected value: " ++ text
  | .help => usage
  | .version => "chip8 0.1.0"

def CommandLine.Stop.isRequest : CommandLine.Stop → Bool
  | .help | .version => true
  | _ => false

/-- The folder as far as one path is concerned. -/
def readFolder (path : String) : IO Folder := do
  try
    let bytes ← IO.FS.readBinFile path
    return ⟨[(path, bytes.toList)]⟩
  catch _ => return ⟨[]⟩

partial def readScript (input : IO.FS.Stream) : IO (List (List Input)) := do
  let line ← input.getLine
  if line.isEmpty then return []
  return Script.frame line :: (← readScript input)

def randomWords : List UInt8 → List UInt32
  | a :: b :: c :: d :: rest =>
    (a.toUInt32 + b.toUInt32 <<< 8 + c.toUInt32 <<< 16 + d.toUInt32 <<< 24) :: randomWords rest
  | _ => []

/-- What was printed goes out as it is; records about the run go to the error output. -/
def report (h : Happening) : IO Unit :=
  match h with
  | .printed text => IO.print text
  | .recorded r => if r.level.isSummary then IO.eprintln r.line else pure ()
  | _ => pure ()

/-- Plays on a device that is neither seen nor heard. Each line of standard input is what the player
does before one frame, and its end closes the window. -/
def playFrom (options : CommandLine.Options) : IO UInt32 := do
  let folder ← readFolder options.rom
  let script ← readScript (← IO.getStdin)
  let entropy := Entropy.cycle (randomWords (← IO.getRandomBytes 16384).toList)
  let (result, session) :=
    Session.run options.setup folder script (Device.idle none none 0 0) entropy
  session.device.happenings.forM report
  match result with
  | .ok () => return 0
  | .error e =>
    if e.isReturned then
      IO.eprintln ("Error: " ++ e.message)
      return 1
    else
      IO.eprintln e.message
      return 101

end ChipMachine

open ChipMachine in
def main (arguments : List String) : IO UInt32 := do
  match CommandLine.parse arguments with
  | .ok options => playFrom options
  | .error stop =>
    if stop.isRequest then
      IO.println stop.message
      return 0
    else
      IO.eprintln stop.message
      return 2
