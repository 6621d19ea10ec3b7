import Chip8Console.Files.Path

/-!
# Places

Where a path leads when each name in it is a directory. A path is followed name by name: an empty
name and a dot stay, two dots go up, and any other name goes down. It starts from the working
directory or, if it is absolute, from the root; there is nothing above the root.

How deep the working directory lies is not known, so what is above it is counted from there.
-/

namespace Chip8Console

/-- What the names of a place are counted from. -/
inductive Anchor where
  | root
  /-- So many levels above the working directory. -/
  | above (levels : Nat)
  deriving DecidableEq, Repr

structure Place where
  anchor : Anchor
  names : List String
  deriving DecidableEq, Repr

namespace Place

def root : Place := ⟨.root, []⟩

def working : Place := ⟨.above 0, []⟩

/-- Where a path starts. -/
def start (path : String) : Place := if Path.isAbsolute path then root else working

/-- One level up. -/
def parent (p : Place) : Place :=
  match p.anchor, p.names with
  | .above levels, [] => ⟨.above (levels + 1), []⟩
  | anchor, names => ⟨anchor, names.dropLast⟩

/-- Goes on by one name. -/
def go (p : Place) (name : String) : Place :=
  if name = "" ∨ name = "." then p
  else if name = ".." then p.parent
  else { p with names := p.names ++ [name] }

end Place

end Chip8Console
