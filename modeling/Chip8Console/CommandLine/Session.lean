import Chip8Console.CommandLine.Options
import Chip8Console.Files.Tree
import Chip8Console.Host.Loop
import Chip8Console.ProgramSearch

/-!
# A run from the command line

First the arguments are read, then the log file is opened, then the program is looked for and
loaded, and only then does the host loop begin, without a limit. Whatever goes wrong on the way ends
the run with exit code one and a complaint, but for a mistake in the arguments, which has exit code
two; help, version and a wish to stop have exit code zero.
-/

namespace Chip8Console

/-- What a run leaves behind: its exit code, and a complaint if the code is one. -/
structure Report where
  code : Nat
  complaint : Option String
  deriving DecidableEq, Repr

namespace Report

def ofStop : Options.Stop → Report
  | .help | .version => ⟨0, none⟩
  | .usage => ⟨2, none⟩

def ofError (form : String) : Report := ⟨1, some ("Error: " ++ form)⟩

def ofEnding : Ending → Report
  | .failed e => ofError e.form
  | _ => ⟨0, none⟩

end Report

namespace Setup

/-- The machine of a run, with a program loaded. -/
def machine (setup : Setup) (rng : Keystream) (program : List UInt8) : Except Report Machine :=
  match (Machine.fresh setup.consumesKeys rng).load (.ofBytes program) with
  | (machine, .done _) => .ok machine
  | (_, .refused e) => .error (.ofError e.form)
  | (_, .overrun) => .error (.ofError "Overrun")

/-- The host that runs a machine, under the conventional layout. -/
def host (setup : Setup) (machine : Machine) : Host :=
  .ofMachine machine (.ofLayout .conventional) setup.timerRate

/-- The rig of a run whose draws take no time and whose speaker works. -/
def rig (setup : Setup) : Rig := ⟨periodOf setup.rate, fun _ => .ok 0, fun _ _ => none⟩

end Setup

/-- A run before its first poll: over already, or ready with a loaded machine. -/
inductive Launch where
  | over (report : Report) (files : FileTree)
  | ready (setup : Setup) (machine : Machine) (files : FileTree)

namespace Launch

/-- Looks for the program and loads it. -/
def ofOptions (files : FileTree) (home : Option String) (rng : Keystream) (options : Options) :
    Launch :=
  let searched := ProgramSearch.directories home options.setup.extraDirs
  match ProgramSearch.find files.isFile searched options.program with
  | .error e => .over (.ofError e.form) files
  | .ok path =>
    match options.setup.machine rng ((files.read? path).getD []) with
    | .error report => .over report files
    | .ok machine => .ready options.setup machine files

def ofArguments (files : FileTree) (home : Option String) (rng : Keystream)
    (args : List String) : Launch :=
  match Options.parse args with
  | .error stop => .over (.ofStop stop) files
  | .ok options =>
    match files.create options.logPath with
    | .error e => .over (.ofError e.form) files
    | .ok files => ofOptions files home rng options

end Launch

end Chip8Console
