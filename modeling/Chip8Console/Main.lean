import Chip8Console.CommandLine.Session
import Chip8Console.Keypad.Line
import Chip8Console.Terminal.Escape

/-!
# The command

Runs a program in the terminal. The files, the clock, the keys that are typed and the drawing are
those of the system; all decisions are made by the library, which is handed one poll at a time.
-/

namespace Chip8Console

def usage : String :=
  "Usage: chip8-console [--ips RATE] [--mute] [--log-file FILE] [--no-key-consume]"
    ++ " [--rom-dir DIR]... ROM"

def versionLine : String := "chip8-console 0.1.0"

/-- The bytes of a file, if it can be read. -/
def readFile? (path : String) : IO (Option (List UInt8)) := do
  try
    let data ← IO.FS.readBinFile path
    return some data.toList
  catch _ => return none

/-- The first file of a name in the given directories, with its bytes. -/
def findProgram (searched : List String) (name : String) :
    IO (Except ProgramSearch.NotFound (List UInt8)) := do
  let mut present : List (String × List UInt8) := []
  for dir in searched do
    let path := Path.join dir name
    if let some data ← readFile? path then present := (path, data) :: present
  let isFile (path : String) : Bool := (present.lookup path).isSome
  return (ProgramSearch.find isFile searched name).map fun path => (present.lookup path).getD []

/-- A stream of random words under a key that the system makes up. -/
def systemStream : IO Keystream := do
  let bytes ← IO.getRandomBytes 32
  let word (k : Nat) : UInt32 :=
    (bytes.toList.drop (4 * k)).take 4 |>.foldl (fun w b => 256 * w + b.toUInt32) 0
  return ⟨Vector.ofFn fun k => word k.val, 0⟩

/-- Passes on what has happened: screens to the terminal, notices to the log, tones to the bell. -/
def publish (setup : Setup) (log : IO.FS.Handle) (history : List Stamped) : IO Unit := do
  let out ← IO.getStdout
  for stamped in history.reverse do
    match stamped.event with
    | .drew screen => out.putStr (Canvas.paint screen)
    | .sounded .starts _ => if !setup.mute then out.putStr "\x07"
    | .noted notice =>
      if notice.level matches .info | .warn | .error then
        log.putStrLn (notice.level.label ++ " " ++ notice.text)
    | _ => pure ()
  out.flush

/-- A reading of what is typed that goes on while the machine runs. -/
abbrev Reading := Task (Except IO.Error ByteArray)

def startReading : IO Reading := do
  IO.asTask ((← IO.getStdin).read Line.blockSize.toUSize) .dedicated

/-- Reads the line, with what has been typed if the reading of that is over, and the reading that
goes on. -/
def hear (line : Line) (reading : Reading) : IO (List Keystroke × Line × Reading) := do
  if !(← IO.hasFinished reading) then
    let (line, strokes) := line.read
    return (strokes, line, reading)
  let bytes := reading.get.toOption.getD .empty
  let (line, strokes) := (line.type ((String.fromUTF8? bytes).getD "")).read
  if bytes.isEmpty || strokes.any Keyboard.asksToStop then return (strokes, line, reading)
  return (strokes, line, ← startReading)

/-- Plays a call to its end, in real time since `start`. -/
partial def play (setup : Setup) (log : IO.FS.Handle) (start : Nat) (line : Line)
    (reading : Reading) : Stage → IO (Option Ending)
  | .stalled => return none
  | .ended ending h => do
    publish setup log h.history
    return some ending
  | .running phase h => do
    publish setup log h.history
    let early := h.clock - ((← IO.monoNanosNow) - start)
    IO.sleep (UInt32.ofNat (early / 1000000))
    let (strokes, line, reading) ← hear line reading
    let late := (← IO.monoNanosNow) - start - h.clock
    let next := { h with history := [] }.resume setup.rig phase (.answered late (.strokes strokes))
    play setup log start line reading next

/-- Plays a loaded machine on the terminal. -/
def playOnTerminal (setup : Setup) (log : IO.FS.Handle) (machine : Machine) : IO Report := do
  let out ← IO.getStdout
  let reading ← startReading
  out.putStr (Canvas.clear ++ Canvas.hideCursor)
  let start ← IO.monoNanosNow
  let first := Call.start setup.rig (setup.host machine) (.run none)
  let ending ← play setup log start .quiet reading first
  out.putStr (Canvas.moveTo 0 (Canvas.bottom + 1) ++ Canvas.showCursor)
  out.flush
  return (ending.map Report.ofEnding).getD ⟨0, none⟩

def runOptions (options : Options) : IO Report := do
  let log ← IO.FS.Handle.mk options.logPath .write
  let searched := ProgramSearch.directories (← IO.getEnv "HOME") options.setup.extraDirs
  match ← findProgram searched options.program with
  | .error e => return .ofError e.form
  | .ok program =>
    match options.setup.machine (← systemStream) program with
    | .error report => return report
    | .ok machine => playOnTerminal options.setup log machine

end Chip8Console

open Chip8Console in
def main (args : List String) : IO UInt32 := do
  let report ←
    match Options.parse args with
    | .ok options => try runOptions options catch e => pure (.ofError (toString e))
    | .error stop =>
      match stop with
      | .help => IO.println usage
      | .version => IO.println versionLine
      | .usage => IO.eprintln usage
      pure (Report.ofStop stop)
  if let some complaint := report.complaint then IO.eprintln complaint
  return UInt32.ofNat report.code
