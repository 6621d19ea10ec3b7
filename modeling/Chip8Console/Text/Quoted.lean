import Chip8Console.Text.Hex
import Chip8Console.Text.Shapeless

/-!
# Quoted text

Text between quotes, in which nothing is invisible. A backslash stands before a backslash and before
the quote that encloses the text, and before a letter for a tab, a line feed, a carriage return or a
null. A character without a shape of its own is written as its code point in hexadecimal. All others
stand for themselves, the other kind of quote included.
-/

namespace Chip8Console.Quoted

def backslash : Char := '\x5c'

def doubleQuote : Char := '\x22'

def singleQuote : Char := '\x27'

/-- A character as it is written between two of the given quotes. -/
def escape (quote c : Char) : List Char :=
  if c = '\x00' then [backslash, '0']
  else if c = '\x09' then [backslash, 't']
  else if c = '\x0d' then [backslash, 'r']
  else if c = '\x0a' then [backslash, 'n']
  else if c = backslash ∨ c = quote then [backslash, c]
  else if Shapeless.contains c then
    [backslash, 'u', '\x7b'] ++ Hex.digits .small c.toNat ++ ['\x7d']
  else [c]

def enclosed (quote : Char) (cs : List Char) : String :=
  String.ofList ([quote] ++ cs.flatMap (escape quote) ++ [quote])

def text (s : String) : String := enclosed doubleQuote s.toList

def char (c : Char) : String := enclosed singleQuote [c]

def texts (ss : List String) : String := "[" ++ ", ".intercalate (ss.map text) ++ "]"

end Chip8Console.Quoted
