/-!
# Keys of a terminal

What a terminal reports when a key is struck: a character, or one of the keys that have none. Of the
modifiers only control matters here.
-/

namespace Chip8Console

inductive SpecialKey where
  | enter
  | backspace
  | left
  | right
  | up
  | down
  | home
  | endOfLine
  | pageUp
  | pageDown
  | tab
  | backTab
  | delete
  | insert
  | null
  | function (n : UInt8)
  deriving DecidableEq, Repr

def SpecialKey.label : SpecialKey → String
  | enter => "Enter"
  | backspace => "Backspace"
  | left => "Left"
  | right => "Right"
  | up => "Up"
  | down => "Down"
  | home => "Home"
  | endOfLine => "End"
  | pageUp => "PageUp"
  | pageDown => "PageDown"
  | tab => "Tab"
  | backTab => "BackTab"
  | delete => "Delete"
  | insert => "Insert"
  | null => "Null"
  | function n => "F(" ++ toString n.toNat ++ ")"

inductive Key where
  | escape
  | char (c : Char)
  | special (k : SpecialKey)
  deriving DecidableEq, Repr

structure Keystroke where
  key : Key
  control : Bool
  deriving DecidableEq, Repr

end Chip8Console
