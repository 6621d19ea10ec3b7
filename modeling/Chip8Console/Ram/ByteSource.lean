/-!
# Byte sources

Something that bytes are read from, one read at a time. A source decides how much of what is asked
for a read hands out: at least one byte while there are any, and otherwise as many as it likes,
which may depend on how far it has come. It may also break: from a certain offset on every read
fails, at the end of the data as well, and no read crosses that offset.

An empty answer means the end of the data. What the functions here deliver does not depend on the
sizes of the single reads.
-/

namespace Chip8Console

structure ByteSource where
  rest : List UInt8
  /-- How many bytes have been handed out. -/
  given : Nat
  /-- The most that one read hands out at an offset; zero counts as one. -/
  piece : Nat → Nat
  /-- Where reads start to fail. -/
  breaksAt : Option Nat
  /-- What a failing read says. -/
  reason : String

namespace ByteSource

/-- A source that holds `data`, does not break, and hands out all that is asked for. -/
def ofBytes (data : List UInt8) : ByteSource := ⟨data, 0, fun _ => data.length, none, ""⟩

/-- A source that hands out at most `size` bytes at a time; if that is none, its data never come. -/
def inPieces (data : List UInt8) (size : Nat) (breaksAt : Option Nat) (reason : String) :
    ByteSource where
  rest := if size = 0 then [] else data
  given := 0
  piece := fun _ => size
  breaksAt
  reason

def broken (s : ByteSource) : Bool :=
  match s.breaksAt with
  | none => false
  | some offset => offset ≤ s.given

/-- How many bytes a read of at most `want` bytes asks the data for. -/
def portion (s : ByteSource) (want : Nat) : Nat :=
  let n := min want (max 1 (s.piece s.given))
  match s.breaksAt with
  | none => n
  | some offset => min n (offset - s.given)

def read (s : ByteSource) (want : Nat) : Except String (List UInt8 × ByteSource) :=
  if s.broken then .error s.reason
  else
    let chunk := s.rest.take (s.portion want)
    .ok (chunk, { s with rest := s.rest.drop (s.portion want), given := s.given + chunk.length })

theorem read_rest_length {s t : ByteSource} {want : Nat} {chunk : List UInt8}
    (h : s.read want = .ok (chunk, t)) : t.rest.length + chunk.length = s.rest.length := by
  unfold read at h
  split at h
  · cases h
  · simp only [Except.ok.injEq, Prod.mk.injEq] at h
    rw [← h.1, ← h.2, List.length_take, List.length_drop]
    omega

/-- Reads until `limit` bytes have come or the data ends. -/
def readUpTo (s : ByteSource) (limit : Nat) : Except String (List UInt8 × ByteSource) :=
  if limit = 0 then .ok ([], s)
  else
    match s.read limit with
    | .error e => .error e
    | .ok ([], t) => .ok ([], t)
    | .ok (b :: chunk, t) =>
      match t.readUpTo (limit - (chunk.length + 1)) with
      | .error e => .error e
      | .ok (more, u) => .ok (b :: chunk ++ more, u)
termination_by limit
decreasing_by omega

/-- The most that `drain` asks for at a time. -/
def drainSize : Nat := 8192

/-- Reads to the end of the data and adds up what comes to `count`. -/
def drain (s : ByteSource) (count : Nat) : Except String Nat :=
  match h : s.read drainSize with
  | .error e => .error e
  | .ok ([], _) => .ok count
  | .ok (_ :: chunk, t) => t.drain (count + (chunk.length + 1))
termination_by s.rest.length
decreasing_by
  have := read_rest_length h
  simp only [List.length_cons] at this
  omega

end ByteSource

end Chip8Console
