import Chip8Console.Host.Ending
import Chip8Console.Keypad.Keyboard
import Chip8Console.Machine.Dump
import Chip8Console.Machine.Exec
import Chip8Console.Instruction.Text
import Chip8Console.Text.Interval
import Chip8Console.Text.Quoted

/-!
# Notices

What the machine and its host report about themselves as they go, each with a level and a line of
text. The operations themselves keep no record: the functions here say, from the state before an
operation, which notices it gives rise to.
-/

namespace Chip8Console

inductive Level where
  | trace
  | debug
  | info
  | warn
  | error
  deriving DecidableEq, Repr

def Level.label : Level → String
  | trace => "TRACE"
  | debug => "DEBUG"
  | info => "INFO"
  | warn => "WARN"
  | error => "ERROR"

inductive Notice where
  | loaded (len : Nat)
  | fetched (pc : UInt16) (w : Word)
  | skipped (pc : UInt16) (w : Word)
  | resumed (key x : Nibble)
  | unmapped (c : Char)
  | ignored (key : SpecialKey)
  | found (name path : String)
  | starting (pc : UInt16) (cycle : Nat)
  | awaiting (x : Nibble)
  | muted (reason : String)
  | stillSounding (reason : String)
  | stopped (ending : Ending)
  | aborted (e : HostError) (m : Machine)
  deriving DecidableEq

namespace Notice

def level : Notice → Level
  | fetched .. => .trace
  | loaded .. | resumed .. | ignored .. | found .. | awaiting .. => .debug
  | starting .. | stopped .. => .info
  | skipped .. | unmapped .. | muted .. | stillSounding .. => .warn
  | aborted .. => .error

private def address (a : UInt16) : String := "0x" ++ Hex.lower 3 a.toNat

private def endingText : Ending → String
  | .quit => "Quit"
  | .cycleLimit => "CycleLimit"
  | .pressed key => "Pressed(" ++ toString key.toNat ++ ")"
  | .cancelled => "Cancelled"
  | .failed e => e.message

def text : Notice → String
  | loaded len => "loaded " ++ toString len ++ " byte program at 0x200"
  | fetched pc w =>
    address pc ++ ": " ++ Hex.lower 4 w.toNat ++ "  " ++ (Instruction.ofWord w).mnemonic
  | skipped pc w =>
    "unknown instruction " ++ Hex.lower 4 w.toNat ++ " at " ++ address pc ++ ", skipping"
  | resumed key x => "key " ++ Hex.upper 1 key.val ++ " resumes wait into V" ++ Hex.upper 1 x.val
  | unmapped c => "can't map " ++ Quoted.char c ++ " to a keypad key"
  | ignored key => "ignoring key " ++ key.label
  | found name path => "found " ++ name ++ " at " ++ path
  | starting pc cycle =>
    "starting at " ++ address pc ++ ", one instruction every " ++ Interval.text cycle
  | awaiting x => "waiting for a key into V" ++ Hex.upper 1 x.val
  | muted reason => "sound unavailable, carrying on muted: " ++ reason
  | stillSounding reason => "couldn't silence the tone on the way out: " ++ reason
  | stopped ending => "stopped: " ++ endingText ending
  | aborted e m => "stopped: " ++ e.message ++ " in " ++ m.dump

def ofLoading : Loading → List Notice
  | .done len => [.loaded len]
  | _ => []

def ofExec (m : Machine) : Instruction → List Notice
  | .unknown w => [.skipped m.pc w]
  | _ => []

def ofStep (m : Machine) : List Notice :=
  if m.waiting.isSome then []
  else
    match m.fetch with
    | .error _ => []
    | .ok w => .fetched m.pc w :: ofExec m (.ofWord w)

def ofPressKey (m : Machine) (key : UInt8) : List Notice :=
  match m.waiting with
  | none => []
  | some x => [.resumed (Keys.named key) x]

def ofKeystroke (kb : Keyboard) (stroke : Keystroke) : List Notice :=
  if Keyboard.asksToStop stroke then []
  else
    match stroke.key with
    | .char c => if (kb.layout.keyOf? c).isNone then [.unmapped c] else []
    | .special k => [.ignored k]
    | .escape => []

end Notice

end Chip8Console
