/-!
# Paths

A path is text; names in it are parted by slashes. Paths are joined and not tidied: what was put in
stays readable.
-/

namespace Chip8Console.Path

def slash : Char := '/'

def isAbsolute (path : String) : Bool := path.toList.head? == some slash

/-- A path read from a directory. An absolute path stays as it is; otherwise one slash parts the
two, unless the directory is empty or has one at its end. -/
def join (dir path : String) : String :=
  if isAbsolute path then path
  else if dir.isEmpty || dir.toList.getLast? == some slash then dir ++ path
  else dir ++ "/" ++ path

/-- The names between slashes; an empty one stands between two slashes and at either end. -/
def names (path : String) : List String := path.splitOn "/"

end Chip8Console.Path
