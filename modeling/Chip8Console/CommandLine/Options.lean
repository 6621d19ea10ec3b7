import Chip8Console.Text.Digits

/-!
# Command line options

The arguments are read from left to right. One without a leading dash, or a single dash alone, names
the program, and there is exactly one; after `--` all arguments are of this kind. Options with a
value take it from the same argument, after an equals sign, or after the letter of a short option,
or else from the next argument, which must not begin with a dash unless it is just a dash. Short
options can share one dash. Only the directories can be given more than once, and no name or path
may be empty.

Help and version end the reading where they are met, so a mistake before them counts and one after
them does not.
-/

namespace Chip8Console

/-- What a run needs besides the program. -/
structure Setup where
  rate : UInt32
  timerRate : UInt32
  consumesKeys : Bool
  mute : Bool
  extraDirs : List String
  deriving DecidableEq, Repr

namespace Setup

def defaultRate : UInt32 := 700

/-- The timers count down sixty times a second. -/
def standardTimerRate : UInt32 := 60

end Setup

structure Options where
  program : String
  logPath : String
  setup : Setup
  deriving DecidableEq, Repr

namespace Options

/-- Why there are no options to run with. -/
inductive Stop where
  | help
  | version
  | usage
  deriving DecidableEq, Repr

/-- Options that are just there. -/
inductive Switch where
  | mute
  | keepKeys
  | help
  | version
  deriving DecidableEq, Repr

/-- Options with a value. -/
inductive Setting where
  | ips
  | logPath
  | extraDir
  deriving DecidableEq, Repr

inductive Kind where
  | switch (s : Switch)
  | setting (s : Setting)
  deriving DecidableEq, Repr

def ofLong? : String → Option Kind
  | "mute" => some (.switch .mute)
  | "no-key-consume" => some (.switch .keepKeys)
  | "help" => some (.switch .help)
  | "version" => some (.switch .version)
  | "ips" => some (.setting .ips)
  | "log-file" => some (.setting .logPath)
  | "rom-dir" => some (.setting .extraDir)
  | _ => none

def ofShort? : Char → Option Kind
  | 'm' => some (.switch .mute)
  | 'h' => some (.switch .help)
  | 'V' => some (.switch .version)
  | 'i' => some (.setting .ips)
  | _ => none

/-- What has been read so far. -/
structure Given where
  program : Option String
  ips : Option UInt32
  logPath : Option String
  mute : Bool
  keepKeys : Bool
  extraDirs : List String
  deriving DecidableEq, Repr

def Given.nothing : Given := ⟨none, none, none, false, false, []⟩

/-- A rate: digits after at most one sign, with a value of 32 bits; so the only number that may
have a minus sign is zero. -/
def rate? (text : String) : Option UInt32 :=
  let value? : Option Nat :=
    match text.toList with
    | '+' :: cs => Digits.value? cs
    | '-' :: cs => (Digits.value? cs).filter (· == 0)
    | cs => Digits.value? cs
  (value?.filter (· < 4294967296)).map UInt32.ofNat

namespace Given

def switchOn (g : Given) : Switch → Except Stop Given
  | .mute => if g.mute then .error .usage else .ok { g with mute := true }
  | .keepKeys =>
    if g.keepKeys then .error .usage else .ok { g with keepKeys := true }
  | .help => .error .help
  | .version => .error .version

def assign (g : Given) (setting : Setting) (value : String) : Except Stop Given :=
  match setting with
  | .ips =>
    match g.ips, rate? value with
    | none, some n => .ok { g with ips := some n }
    | _, _ => .error .usage
  | .logPath =>
    if g.logPath.isSome || value.isEmpty then .error .usage
    else .ok { g with logPath := some value }
  | .extraDir =>
    if value.isEmpty then .error .usage else .ok { g with extraDirs := g.extraDirs ++ [value] }

def positional (g : Given) (arg : String) : Except Stop Given :=
  if g.program.isSome || arg.isEmpty then .error .usage else .ok { g with program := some arg }

def positionals (g : Given) : List String → Except Stop Given
  | [] => .ok g
  | arg :: rest =>
    match g.positional arg with
    | .error e => .error e
    | .ok g => g.positionals rest

/-- Reads the letters of short options; the answer has the setting that still needs its value. -/
def shorts (g : Given) : List Char → Except Stop (Given × Option Setting)
  | [] => .ok (g, none)
  | c :: cs =>
    match ofShort? c with
    | none => .error .usage
    | some (.switch s) =>
      match g.switchOn s with
      | .error e => .error e
      | .ok g => g.shorts cs
    | some (.setting s) =>
      match cs with
      | [] => .ok (g, some s)
      | '=' :: value => (g.assign s (String.ofList value)).map (·, none)
      | value => (g.assign s (String.ofList value)).map (·, none)

/-- Reads a long option without its dashes. -/
def long (g : Given) (cs : List Char) : Except Stop (Given × Option Setting) :=
  let name := cs.takeWhile (· != '=')
  match ofLong? (String.ofList name), cs.drop name.length with
  | none, _ => .error .usage
  | some (.switch s), [] => (g.switchOn s).map (·, none)
  | some (.switch _), _ => .error .usage
  | some (.setting s), [] => .ok (g, some s)
  | some (.setting s), _ :: value => (g.assign s (String.ofList value)).map (·, none)

/-- Reads one argument other than `--`. -/
def argument (g : Given) (arg : String) : Except Stop (Given × Option Setting) :=
  match arg.toList with
  | '-' :: '-' :: cs => g.long cs
  | '-' :: c :: cs => g.shorts (c :: cs)
  | _ => (g.positional arg).map (·, none)

/-- Whether an argument cannot be the value of the option before it. -/
def looksLikeOption (arg : String) : Bool :=
  match arg.toList with
  | ['-'] => false
  | '-' :: _ => true
  | _ => false

def arguments (g : Given) : List String → Except Stop Given
  | [] => .ok g
  | arg :: rest =>
    if arg = "--" then g.positionals rest
    else
      match g.argument arg with
      | .error e => .error e
      | .ok (g, none) => g.arguments rest
      | .ok (g, some setting) =>
        match rest with
        | [] => .error .usage
        | value :: rest =>
          if looksLikeOption value then .error .usage
          else
            match g.assign setting value with
            | .error e => .error e
            | .ok g => g.arguments rest

def toOptions (g : Given) : Except Stop Options :=
  match g.program with
  | none => .error .usage
  | some program =>
    .ok
      { program
        logPath := g.logPath.getD "chip8.log"
        setup :=
          { rate := g.ips.getD Setup.defaultRate
            timerRate := Setup.standardTimerRate
            consumesKeys := !g.keepKeys
            mute := g.mute
            extraDirs := g.extraDirs } }

end Given

def parse (args : List String) : Except Stop Options :=
  match Given.nothing.arguments args with
  | .error e => .error e
  | .ok g => g.toOptions

end Options

end Chip8Console
