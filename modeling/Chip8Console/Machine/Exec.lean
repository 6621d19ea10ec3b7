import Chip8Console.Machine.Basic
import Chip8Console.Machine.Decimal
import Chip8Console.Screen.Sprite

/-!
# Executing instructions

`step` executes the instruction at the program counter. The counter moves past the instruction
first, so that jumps, calls, returns and skips change a counter that already points behind; an
instruction that faults puts it back. Every instruction that can fault checks before it changes
anything else, so a faulting step leaves the whole machine as it was.

Flags are written after results: when register fifteen is also the destination, the flag stays.
While a key wait is pending nothing is executed.
-/

namespace Chip8Console

/-- How a step ends. -/
inductive Outcome where
  | advanced
  /-- A key wait is pending. -/
  | parked
  | faulted (f : Fault)
  deriving DecidableEq, Repr

namespace Machine

def flag : Nibble := 15

def set (m : Machine) (x : Nibble) (b : UInt8) : Machine := { m with v := Nibble.put m.v x b }

/-- Writes a result, then the flag. -/
def setWithFlag (m : Machine) (x : Nibble) (b : UInt8) (flagged : Bool) : Machine :=
  (m.set x b).set flag (if flagged then 1 else 0)

def skipIf (m : Machine) (c : Bool) : Machine := if c then { m with pc := m.pc + 2 } else m

/-- Lets a key go if it was found pressed and the setting says so. -/
def consume (m : Machine) (key : UInt8) : Machine :=
  if m.holdsKey key && m.consumesKeys then m.releaseKey key else m

/-- The registers with `data` laid over them from register zero on. -/
def loaded (v : Vector UInt8 16) (data : List UInt8) : Vector UInt8 16 :=
  Vector.ofFn fun k => (data[k.val]?).getD v[k]

/-- Carries out the instruction at `pc`; the machine's own counter is already behind it. -/
def perform (m : Machine) (pc : UInt16) : Instruction → Machine × Outcome
  | .clear => ({ m with screen := .blank, stale := true }, .advanced)
  | .ret =>
    match m.pop pc with
    | .error f => (m, .faulted f)
    | .ok (address, m) => ({ m with pc := address }, .advanced)
  | .jump a => ({ m with pc := UInt16.ofNat a.val }, .advanced)
  | .call a =>
    match m.push m.pc pc with
    | .error f => (m, .faulted f)
    | .ok m => ({ m with pc := UInt16.ofNat a.val }, .advanced)
  | .skipEqByte x k => (m.skipIf (m.v[x] == k), .advanced)
  | .skipNeByte x k => (m.skipIf (m.v[x] != k), .advanced)
  | .skipEq x y => (m.skipIf (m.v[x] == m.v[y]), .advanced)
  | .setByte x k => (m.set x k, .advanced)
  | .addByte x k => (m.set x (m.v[x] + k), .advanced)
  | .copy x y => (m.set x m.v[y], .advanced)
  | .or x y => (m.set x (m.v[x] ||| m.v[y]), .advanced)
  | .and x y => (m.set x (m.v[x] &&& m.v[y]), .advanced)
  | .xor x y => (m.set x (m.v[x] ^^^ m.v[y]), .advanced)
  | .add x y =>
    (m.setWithFlag x (m.v[x] + m.v[y]) (256 ≤ m.v[x].toNat + m.v[y].toNat), .advanced)
  | .sub x y => (m.setWithFlag x (m.v[x] - m.v[y]) (m.v[y] ≤ m.v[x]), .advanced)
  | .shiftRight x _ => (m.setWithFlag x (m.v[x] >>> 1) (m.v[x] &&& 1 != 0), .advanced)
  | .subFrom x y => (m.setWithFlag x (m.v[y] - m.v[x]) (m.v[x] ≤ m.v[y]), .advanced)
  | .shiftLeft x _ => (m.setWithFlag x (m.v[x] <<< 1) (m.v[x] >>> 7 != 0), .advanced)
  | .skipNe x y => (m.skipIf (m.v[x] != m.v[y]), .advanced)
  | .setIndex a => ({ m with i := UInt16.ofNat a.val }, .advanced)
  | .jumpOffset a => ({ m with pc := UInt16.ofNat a.val + m.v[(0 : Nibble)].toUInt16 }, .advanced)
  | .random x k =>
    let (word, rng) := m.rng.next
    ({ m with rng }.set x (word.toUInt8 &&& k), .advanced)
  | .draw x y n =>
    match m.ram.read m.i n.val with
    | .error f => (m, .faulted f)
    | .ok rows =>
      let (screen, hit) := m.screen.drawSprite m.v[x].toNat m.v[y].toNat rows
      ({ m with screen, stale := true }.set flag (if hit then 1 else 0), .advanced)
  | .skipPressed x => ((m.skipIf (m.holdsKey m.v[x])).consume m.v[x], .advanced)
  | .skipReleased x => ((m.skipIf (!m.holdsKey m.v[x])).consume m.v[x], .advanced)
  | .readDelay x => (m.set x m.timers.delay, .advanced)
  | .awaitKey x => ({ m with waiting := some x }, .parked)
  | .setDelay x => ({ m with timers := { m.timers with delay := m.v[x] } }, .advanced)
  | .setSound x => ({ m with timers := { m.timers with sound := m.v[x] } }, .advanced)
  | .addIndex x => ({ m with i := m.i + m.v[x].toUInt16 }, .advanced)
  | .glyph x => ({ m with i := Font.addressOf (Keys.named m.v[x]) }, .advanced)
  | .decimal x =>
    match m.ram.write m.i (Decimal.digits m.v[x]) with
    | .error f => (m, .faulted f)
    | .ok ram => ({ m with ram }, .advanced)
  | .store x =>
    match m.ram.write m.i (m.v.toList.take (x.val + 1)) with
    | .error f => (m, .faulted f)
    | .ok ram => ({ m with ram }, .advanced)
  | .load x =>
    match m.ram.read m.i (x.val + 1) with
    | .error f => (m, .faulted f)
    | .ok data => ({ m with v := loaded m.v data }, .advanced)
  | .unknown _ => (m, .advanced)

/-- Executes an instruction as if it had been fetched at the program counter. -/
def exec (m : Machine) (instruction : Instruction) : Machine × Outcome :=
  match { m with pc := m.pc + 2 }.perform m.pc instruction with
  | (next, .faulted f) => ({ next with pc := m.pc }, .faulted f)
  | done => done

def step (m : Machine) : Machine × Outcome :=
  if m.waiting.isSome then (m, .parked)
  else
    match m.fetch with
    | .error f => (m, .faulted f)
    | .ok w => m.exec (.ofWord w)

end Machine

end Chip8Console
