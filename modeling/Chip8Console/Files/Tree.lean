import Chip8Console.Files.Place

/-!
# File trees

What there is at the places of a file system: directories, files and devices. The root, the working
directory and all above it are there without being listed. Every place that a path leaves must be a
directory, and a slash at the end of a path leaves the last name too.
-/

namespace Chip8Console

inductive Node where
  | dir
  | file (data : List UInt8)
  /-- Something that takes what is written to it and keeps nothing. -/
  | device
  deriving DecidableEq, Repr

structure FileTree where
  entries : List (Place × Node)
  deriving DecidableEq, Repr

/-- Why a file cannot be opened. -/
inductive OpenError where
  | notFound
  | notDirectory
  | isDirectory
  | nameTooLong
  deriving DecidableEq, Repr

def OpenError.form : OpenError → String
  | notFound => "Os \x7b code: 2, kind: NotFound, message: \"No such file or directory\" \x7d"
  | notDirectory => "Os \x7b code: 20, kind: NotADirectory, message: \"Not a directory\" \x7d"
  | isDirectory => "Os \x7b code: 21, kind: IsADirectory, message: \"Is a directory\" \x7d"
  | nameTooLong => "Os \x7b code: 36, kind: InvalidFilename, message: \"File name too long\" \x7d"

namespace FileTree

def empty : FileTree := ⟨[]⟩

def node? (t : FileTree) (p : Place) : Option Node :=
  if p.names.isEmpty then some .dir else t.entries.lookup p

/-- Puts something at a place, instead of what is there. -/
def put (t : FileTree) (p : Place) (node : Node) : FileTree :=
  ⟨(p, node) :: t.entries.filter fun (q, _) => q != p⟩

/-! ## Following paths -/

/-- The most bytes that a path can have. -/
def maxPath : Nat := 4095

/-- The most bytes that a name can have. -/
def maxName : Nat := 255

/-- Leaves a directory by a name, whether or not something is there. -/
def enter (t : FileTree) (p : Place) (name : String) : Except OpenError Place :=
  match t.node? p with
  | none => .error .notFound
  | some .dir => if maxName < name.utf8ByteSize then .error .nameTooLong else .ok (p.go name)
  | some _ => .error .notDirectory

def follow (t : FileTree) (p : Place) : List String → Except OpenError Place
  | [] => .ok p
  | name :: names =>
    match t.enter p name with
    | .error e => .error e
    | .ok next => t.follow next names

/-- What is at the end of a path. -/
def find (t : FileTree) (path : String) : Except OpenError Node :=
  if path.isEmpty then .error .notFound
  else if maxPath < path.utf8ByteSize then .error .nameTooLong
  else
    match t.follow (.start path) (Path.names path) with
    | .error e => .error e
    | .ok p =>
      match t.node? p with
      | none => .error .notFound
      | some node => .ok node

/-- The bytes of the file at a path. -/
def read? (t : FileTree) (path : String) : Option (List UInt8) :=
  match t.find path with
  | .ok (.file data) => some data
  | _ => none

def isFile (t : FileTree) (path : String) : Bool := (t.read? path).isSome

/-! ## Opening for writing -/

/-- Empties the file at a place, or makes one. -/
def openAt (t : FileTree) (p : Place) : Except OpenError FileTree :=
  match t.node? p with
  | none | some (.file _) => .ok (t.put p (.file []))
  | some .dir => .error .isDirectory
  | some .device => .ok t

/-- Opens an empty file at a path, a new one or in place of the one there. A path that ends in a
slash asks for a directory. -/
def create (t : FileTree) (path : String) : Except OpenError FileTree :=
  if path.isEmpty then .error .notFound
  else if maxPath < path.utf8ByteSize then .error .nameTooLong
  else
    let names := Path.names path
    let trimmed := (names.reverse.dropWhile (· == "")).reverse
    match t.follow (.start path) trimmed.dropLast with
    | .error e => .error e
    | .ok dir =>
      match t.enter dir (if trimmed = names then trimmed.getLastD "" else "") with
      | .error e => .error e
      | .ok p => t.openAt p

/-! ## Building -/

/-- Adds a directory where there is nothing. -/
def addDirAt (t : FileTree) (p : Place) : FileTree :=
  if (t.node? p).isSome then t else t.put p .dir

/-- Adds the directories that names lead through, one after the other. -/
def addDirs (t : FileTree) (p : Place) : List String → FileTree
  | [] => t
  | name :: names => (t.addDirAt (p.go name)).addDirs (p.go name) names

/-- Adds a directory and those on the way to it. -/
def addDir (t : FileTree) (path : String) : FileTree :=
  t.addDirs (.start path) (Path.names path)

/-- Adds a file and the directories on the way to it. -/
def addFile (t : FileTree) (path : String) (data : List UInt8) : FileTree :=
  let names := Path.names path
  (t.addDirs (.start path) names.dropLast).put (names.foldl .go (.start path)) (.file data)

/-! ## Listing -/

/-- The names on the way from the working directory to a file below it. -/
def below? : Place × Node → Option (List String)
  | (⟨.above 0, names⟩, .file _) => some names
  | _ => none

/-- The paths of all files below the working directory, in order. -/
def paths (t : FileTree) : List String :=
  ((t.entries.filterMap below?).map ("/".intercalate ·)).mergeSort fun a b => a ≤ b

end FileTree

end Chip8Console
