import Chip8Console.Files.Path
import Chip8Console.Text.Quoted

/-!
# Where programs are looked for

A program's name is tried as it is given, then in `roms`, then in `.chip8/roms` below the home
directory if there is one, and then in the directories asked for, in their order. The first place
where there is a file wins.
-/

namespace Chip8Console.ProgramSearch

/-- The directories to try; an empty one means the name as it is given. -/
def directories (home : Option String) (extraDirs : List String) : List String :=
  ["", "roms"]
    ++ (home.map fun h => Path.join (Path.join h ".chip8") "roms").toList
    ++ extraDirs

/-- A program that is nowhere. -/
structure NotFound where
  name : String
  searched : List String
  deriving DecidableEq, Repr

namespace NotFound

def message (e : NotFound) : String :=
  "couldn't find program image " ++ Quoted.text e.name
    ++ " (searched " ++ Quoted.texts e.searched ++ ")"

def form (e : NotFound) : String :=
  "NotFound \x7b name: " ++ Quoted.text e.name
    ++ ", searched: " ++ Quoted.texts e.searched ++ " \x7d"

end NotFound

/-- The path of the first file of a name in the given directories. -/
def find (isFile : String → Bool) (searched : List String) (name : String) :
    Except NotFound String :=
  match (searched.map fun dir => Path.join dir name).find? isFile with
  | some path => .ok path
  | none => .error ⟨name, searched⟩

end Chip8Console.ProgramSearch
