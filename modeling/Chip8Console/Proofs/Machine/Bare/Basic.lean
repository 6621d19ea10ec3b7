import Chip8Console.Proofs.Machine.Action

/-!
# The machine without its bounds

The machine once more, with nothing in its types that keeps it in bounds. Registers, stack slots,
keys, pixels and memory are lists of any length, a pending wait is any number, a pixel any byte. An
operation that relies on a bound has no answer where the bound does not hold: taking or putting a
cell that is not there, taking or laying over a part that runs over the end, and a sum or product
that does not fit its word. Words wrap only where wrapping is what the instruction asks for.

`Bare.ofMachine` forgets the bounds of a machine. That a run of the bare machine has an answer
therefore says that no operation of the run has gone out of bounds.
-/

namespace Chip8Console

namespace Cells

variable {α : Type}

def put? (cells : List α) (k : Nat) (a : α) : Option (List α) :=
  if k < cells.length then some (cells.set k a) else none

def part? (cells : List α) (start len : Nat) : Option (List α) :=
  if start + len ≤ cells.length then some ((cells.drop start).take len) else none

/-- The cells with others laid over them from `start` on. -/
def lay? (cells : List α) (start : Nat) (data : List α) : Option (List α) :=
  if start + data.length ≤ cells.length then
    some (cells.take start ++ data ++ cells.drop (start + data.length))
  else none

/-- The cells with `a` in all of them from `start` on. -/
def fillFrom? (cells : List α) (start : Nat) (a : α) : Option (List α) :=
  if start ≤ cells.length then
    some (cells.take start ++ List.replicate (cells.length - start) a)
  else none

end Cells

/-- A number that is to fit into so many bits. -/
def fit? (bits n : Nat) : Option Nat := if n < Nat.pow 2 bits then some n else none

/-- A difference that is not to fall below zero. -/
def minus? (m n : Nat) : Option Nat := if n ≤ m then some (m - n) else none

namespace Decimal

/-- `adjust` on a 32-bit scratch word. -/
def adjust? (scratch : UInt32) (place : Nat) : Option UInt32 :=
  if 4 < (scratch >>> UInt32.ofNat (4 * place)) &&& 0xF then
    (fit? 32 (scratch.toNat + 3 * Nat.pow 16 place)).map UInt32.ofNat
  else some scratch

def shift? (scratch : UInt32) : Option UInt32 := do
  let adjusted ← [2, 3, 4].foldlM adjust? scratch
  return adjusted <<< 1

def digits? (b : UInt8) : Option (List UInt8) := do
  let scratch ← (List.range 8).foldlM (fun scratch _ => shift? scratch) b.toUInt32
  return [4, 3, 2].map fun place => ((scratch >>> UInt32.ofNat (4 * place)) &&& 0xF).toUInt8

end Decimal

structure Bare where
  ram : List UInt8
  loadAt : UInt16
  v : List UInt8
  i : UInt16
  pc : UInt16
  slots : List UInt16
  depth : UInt8
  timers : Timers
  pixels : List UInt8
  stale : Bool
  keys : List Bool
  waiting : Option Nat
  rng : Keystream
  consumesKeys : Bool

namespace Bare

def ofMachine (m : Machine) : Bare where
  ram := m.ram.bytes.toList
  loadAt := m.ram.loadAt
  v := m.v.toList
  i := m.i
  pc := m.pc
  slots := m.stack.slots.toList
  depth := UInt8.ofNat m.stack.depth.val
  timers := m.timers
  pixels := m.screen.toBytes
  stale := m.stale
  keys := m.keys.held.toList
  waiting := m.waiting.map Fin.val
  rng := m.rng
  consumesKeys := m.consumesKeys

def fresh? (consumesKeys : Bool) (seed : UInt64) : Option Bare := do
  let ram ← Cells.lay? (List.replicate 4096 0) 0 Font.glyphs
  return {
    ram
    loadAt := 0x200
    v := List.replicate 16 0
    i := 0
    pc := 0x200
    slots := List.replicate 16 0
    depth := 0
    timers := .zero
    pixels := List.replicate 2048 0
    stale := false
    keys := List.replicate 16 false
    waiting := none
    rng := .ofSeed seed
    consumesKeys }

def reset (b : Bare) : Bare :=
  { b with
    v := List.replicate 16 0
    i := 0
    pc := 0x200
    slots := List.replicate 16 0
    depth := 0
    timers := .zero
    pixels := List.replicate b.pixels.length 0
    stale := true
    keys := List.replicate 16 false
    waiting := none }

def load? (b : Bare) (source : ByteSource) : Option Bare :=
  match Image.ofSource source with
  | .error _ => some b
  | .ok image => do
    let cleared ← Cells.fillFrom? b.ram b.loadAt.toNat 0
    let laid ← Cells.lay? cleared b.loadAt.toNat image
    let ram ← Cells.lay? laid 0 Font.glyphs
    return { b with ram }.reset

/-! ### Registers, keys and memory -/

def get? (b : Bare) (x : Nat) : Option UInt8 := b.v[x]?

def set? (b : Bare) (x : Nat) (a : UInt8) : Option Bare :=
  (Cells.put? b.v x a).map fun v => { b with v }

def setWithFlag? (b : Bare) (x : Nat) (a : UInt8) (flagged : Bool) : Option Bare := do
  let b ← b.set? x a
  b.set? 15 (if flagged then 1 else 0)

def skipIf (b : Bare) (c : Bool) : Bare := if c then { b with pc := b.pc + 2 } else b

def holdsKey? (b : Bare) (key : UInt8) : Option Bool := b.keys[key.toNat % 16]?

def releaseKey? (b : Bare) (key : UInt8) : Option Bare :=
  (Cells.put? b.keys (key.toNat % 16) false).map fun keys => { b with keys }

def pressKey? (b : Bare) (key : UInt8) : Option Bare := do
  let keys ← Cells.put? b.keys (key.toNat % 16) true
  let b := { b with keys }
  match b.waiting with
  | none => return b
  | some x => ({ b with waiting := none } : Bare).set? x (UInt8.ofNat (key.toNat % 16))

def consume? (b : Bare) (key : UInt8) : Option Bare := do
  if (← b.holdsKey? key) && b.consumesKeys then b.releaseKey? key else return b

def read? (b : Bare) (addr : UInt16) (len : Nat) : Option (Except Fault (List UInt8)) :=
  if addr.toNat + len ≤ 4096 then (Cells.part? b.ram addr.toNat len).map .ok
  else some (.error (.outOfRange addr.toNat len))

def write? (b : Bare) (addr : UInt16) (data : List UInt8) : Option (Except Fault Bare) :=
  if addr.toNat + data.length ≤ 4096 then
    (Cells.lay? b.ram addr.toNat data).map fun ram => .ok { b with ram }
  else some (.error (.outOfRange addr.toNat data.length))

def fetch? (b : Bare) : Option (Except Fault Word) := do
  match ← b.read? b.pc 2 with
  | .error f => return .error f
  | .ok bytes => return .ok (Word.ofBytes (← bytes[0]?) (← bytes[1]?))

/-! ### The screen -/

def flip? (pixels : List UInt8) (x y : Nat) : Option (List UInt8 × Bool) := do
  let place ← fit? 64 (64 * (y % 32) + x % 64)
  let px ← pixels[place]?
  return (← Cells.put? pixels place (px ^^^ 1), px ^^^ 1 == 0)

def flipAll? (pixels : List UInt8) : List (Nat × Nat) → Option (List UInt8 × Bool)
  | [] => some (pixels, false)
  | (x, y) :: places => do
    let (next, dark) ← flip? pixels x y
    let (last, hit) ← flipAll? next places
    return (last, dark || hit)

def drawSprite? (pixels : List UInt8) (x y : Nat) (rows : List UInt8) :
    Option (List UInt8 × Bool) := do
  let places ← (Sprite.cells rows).mapM fun cell => do
    return (← fit? 64 (x + cell.1), ← fit? 64 (y + cell.2))
  flipAll? pixels places

/-! ### Instructions -/

def combine? (b : Bare) (x y : Nat) (f : UInt8 → UInt8 → UInt8) : Option Bare := do
  b.set? x (f (← b.get? x) (← b.get? y))

def combineWithFlag? (b : Bare) (x y : Nat) (f : UInt8 → UInt8 → UInt8 × Bool) :
    Option Bare := do
  let (result, flagged) := f (← b.get? x) (← b.get? y)
  b.setWithFlag? x result flagged

def perform? (b : Bare) (pc : UInt16) : Instruction → Option (Bare × Outcome)
  | .clear =>
    return ({ b with pixels := List.replicate b.pixels.length 0, stale := true }, .advanced)
  | .ret => do
    if b.depth = 0 then return (b, .faulted (.stackUnderflow pc))
    let address ← b.slots[b.depth.toNat]?
    let depth ← minus? b.depth.toNat 1
    return ({ b with depth := UInt8.ofNat depth, pc := address }, .advanced)
  | .jump a => return ({ b with pc := UInt16.ofNat a.val }, .advanced)
  | .call a => do
    if 15 ≤ b.depth then return (b, .faulted (.stackOverflow pc))
    let depth ← fit? 8 (b.depth.toNat + 1)
    let slots ← Cells.put? b.slots depth b.pc
    return ({ b with slots, depth := UInt8.ofNat depth, pc := UInt16.ofNat a.val }, .advanced)
  | .skipEqByte x k => do return (b.skipIf ((← b.get? x) == k), .advanced)
  | .skipNeByte x k => do return (b.skipIf ((← b.get? x) != k), .advanced)
  | .skipEq x y => do return (b.skipIf ((← b.get? x) == (← b.get? y)), .advanced)
  | .setByte x k => do return (← b.set? x k, .advanced)
  | .addByte x k => do return (← b.set? x ((← b.get? x) + k), .advanced)
  | .copy x y => do return (← b.set? x (← b.get? y), .advanced)
  | .or x y => do return (← b.combine? x y (· ||| ·), .advanced)
  | .and x y => do return (← b.combine? x y (· &&& ·), .advanced)
  | .xor x y => do return (← b.combine? x y (· ^^^ ·), .advanced)
  | .add x y => do
    return (← b.combineWithFlag? x y fun u w => (u + w, 256 ≤ u.toNat + w.toNat), .advanced)
  | .sub x y => do return (← b.combineWithFlag? x y fun u w => (u - w, w ≤ u), .advanced)
  | .shiftRight x _ => do
    let u ← b.get? x
    return (← b.setWithFlag? x (u >>> 1) (u &&& 1 != 0), .advanced)
  | .subFrom x y => do return (← b.combineWithFlag? x y fun u w => (w - u, u ≤ w), .advanced)
  | .shiftLeft x _ => do
    let u ← b.get? x
    return (← b.setWithFlag? x (u <<< 1) (u >>> 7 != 0), .advanced)
  | .skipNe x y => do return (b.skipIf ((← b.get? x) != (← b.get? y)), .advanced)
  | .setIndex a => return ({ b with i := UInt16.ofNat a.val }, .advanced)
  | .jumpOffset a => do
    let target ← fit? 16 (a.val + (← b.get? 0).toNat)
    return ({ b with pc := UInt16.ofNat target }, .advanced)
  | .random x k => do
    let (word, rng) := b.rng.next
    return (← { b with rng }.set? x (word.toUInt8 &&& k), .advanced)
  | .draw x y n => do
    let left ← b.get? x
    let top ← b.get? y
    match ← b.read? b.i n.val with
    | .error f => return (b, .faulted f)
    | .ok rows =>
      let (pixels, hit) ← drawSprite? b.pixels left.toNat top.toNat rows
      return (← { b with pixels, stale := true }.set? 15 (if hit then 1 else 0), .advanced)
  | .skipPressed x => do
    let key ← b.get? x
    return (← (b.skipIf (← b.holdsKey? key)).consume? key, .advanced)
  | .skipReleased x => do
    let key ← b.get? x
    return (← (b.skipIf (!(← b.holdsKey? key))).consume? key, .advanced)
  | .readDelay x => do return (← b.set? x b.timers.delay, .advanced)
  | .awaitKey x => return ({ b with waiting := some x.val }, .parked)
  | .setDelay x => do
    return ({ b with timers := { b.timers with delay := ← b.get? x } }, .advanced)
  | .setSound x => do
    return ({ b with timers := { b.timers with sound := ← b.get? x } }, .advanced)
  | .addIndex x => do return ({ b with i := b.i + (← b.get? x).toUInt16 }, .advanced)
  | .glyph x => do
    let offset ← fit? 16 (5 * ((← b.get? x).toNat % 16))
    return ({ b with i := UInt16.ofNat offset }, .advanced)
  | .decimal x => do
    match ← b.write? b.i (← Decimal.digits? (← b.get? x)) with
    | .error f => return (b, .faulted f)
    | .ok b => return (b, .advanced)
  | .store x => do
    match ← b.write? b.i (← Cells.part? b.v 0 (x.val + 1)) with
    | .error f => return (b, .faulted f)
    | .ok b => return (b, .advanced)
  | .load x => do
    match ← b.read? b.i (x.val + 1) with
    | .error f => return (b, .faulted f)
    | .ok bytes => return ({ b with v := ← Cells.lay? b.v 0 bytes }, .advanced)
  | .unknown _ => return (b, .advanced)

def exec? (b : Bare) (instruction : Instruction) : Option (Bare × Outcome) := do
  match ← { b with pc := b.pc + 2 }.perform? b.pc instruction with
  | (next, .faulted f) => return ({ next with pc := b.pc }, .faulted f)
  | done => return done

def step? (b : Bare) : Option (Bare × Outcome) := do
  if b.waiting.isSome then return (b, .parked)
  match ← b.fetch? with
  | .error f => return (b, .faulted f)
  | .ok w => b.exec? (.ofWord w)

def act? (b : Bare) : Action → Option Bare
  | .step => b.step?.map Prod.fst
  | .press key => b.pressKey? key
  | .release key => b.releaseKey? key
  | .tick => some { b with timers := b.timers.tick }
  | .note => some { b with stale := false }
  | .abandon => some { b with waiting := none }
  | .reset => some b.reset
  | .load source => b.load? source

def run? (consumesKeys : Bool) (seed : UInt64) (actions : List Action) : Option Bare := do
  actions.foldlM act? (← fresh? consumesKeys seed)

end Bare

end Chip8Console
