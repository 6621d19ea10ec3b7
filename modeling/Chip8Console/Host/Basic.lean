import Chip8Console.Notice
import Chip8Console.Timers.Pacer
import Chip8Console.Timers.Tone

/-!
# The host

A host runs a machine on a clock of its own. It asks its input for events, shows the screen, tells
the speaker when the tone starts and ends, and lets the timers count down as time passes. The clock
moves only by what polls and draws cost and by the time the host sleeps.

What lies outside is described by a rig, which does not change: how long an instruction takes, what
each draw costs or why it fails, and which calls to the speaker fail. The input is a list of polls,
which the loop in `Host.Loop` consumes one by one.

A host keeps a history of all that has happened, the latest first, each event with its time.
-/

namespace Chip8Console

structure Rig where
  /-- The least time from one instruction to the next. -/
  cycle : Nat
  /-- What a draw costs, or why it fails, after so many that succeeded. -/
  draw : Nat → Except String Nat
  /-- Why a call to the speaker fails, if it does, after so many calls. -/
  speaker : Nat → Tone → Option String

/-- What a poll of the input brings: events, or keystrokes that the host's keyboard turns into
events. -/
inductive Arrival where
  | events (es : List KeyEvent)
  | strokes (ks : List Keystroke)
  deriving DecidableEq, Repr

/-- How the input answers a poll. -/
inductive Poll where
  | answered (cost : Nat) (arrival : Arrival)
  | lost (reason : String)
  deriving DecidableEq, Repr

inductive Event where
  | polled
  /-- An instruction was carried out, at this address. -/
  | executed (pc : UInt16) (instruction : Instruction)
  | drew (screen : Screen)
  | sounded (tone : Tone) (failure : Option String)
  /-- The timers were brought up to date: so many ticks, and what they then showed. -/
  | caughtUp (ticks : UInt32) (timers : Timers)
  | noted (notice : Notice)
  deriving DecidableEq

structure Stamped where
  time : Nat
  event : Event
  deriving DecidableEq

structure Host where
  machine : Machine
  keyboard : Keyboard
  pacer : Pacer
  tone : EdgeDetector
  /-- Whether no call to the speaker has failed at an edge of the tone. -/
  speakerWorks : Bool
  clock : Nat
  /-- When the timers were last brought up to date. -/
  timersAt : Nat
  /-- How many draws have succeeded. -/
  frames : Nat
  /-- How many calls the speaker has had. -/
  calls : Nat
  /-- How many polls have been answered. -/
  polls : Nat
  history : List Stamped

namespace Host

/-- A host at time zero whose timers count down at the given rate. -/
def ofMachine (machine : Machine) (keyboard : Keyboard) (timerRate : UInt32) : Host where
  machine
  keyboard
  pacer := .ofRate timerRate
  tone := ⟨false⟩
  speakerWorks := true
  clock := 0
  timersAt := 0
  frames := 0
  calls := 0
  polls := 0
  history := []

def record (h : Host) (e : Event) : Host := { h with history := ⟨h.clock, e⟩ :: h.history }

def note (h : Host) (n : Notice) : Host := h.record (.noted n)

def noteAll (h : Host) (ns : List Notice) : Host := ns.foldl note h

def elapse (h : Host) (time : Nat) : Host := { h with clock := h.clock + time }

/-! ## The speaker -/

/-- Tells the speaker of an edge; the answer is why that failed. -/
def sound (rig : Rig) (h : Host) (tone : Tone) : Host × Option String :=
  let failure := rig.speaker h.calls tone
  ({ h with calls := h.calls + 1 }.record (.sounded tone failure), failure)

/-- Compares the sound timer with the tone and passes an edge on. After a call that failed the
speaker is not called again. -/
def followTone (rig : Rig) (h : Host) : Host :=
  match h.tone.observe h.machine.timers with
  | (tone, none) => { h with tone }
  | (tone, some edge) =>
    if h.speakerWorks then
      match { h with tone }.sound rig edge with
      | (h, none) => h
      | (h, some reason) => { h with speakerWorks := false }.note (.muted reason)
    else { h with tone }

/-- Ends a tone that is on, when a run is over. -/
def silence (rig : Rig) (h : Host) : Host :=
  if h.tone.on && h.speakerWorks then
    match h.sound rig .ends with
    | (h, none) => h
    | (h, some reason) => h.note (.stillSounding reason)
  else h

/-! ## Timers and screen -/

/-- Brings the timers up to date; none if the pacer never comes to an end. -/
def catchUp (rig : Rig) (h : Host) : Option Host :=
  (h.pacer.elapse (h.clock - h.timersAt) h.machine.timers).map fun (pacer, timers, ticks) =>
    ({ h with pacer, timersAt := h.clock, machine := { h.machine with timers } }.followTone
      rig).record (.caughtUp ticks timers)

/-- Shows the screen; the answer is why that failed. -/
def draw (rig : Rig) (h : Host) : Host × Option String :=
  match rig.draw h.frames with
  | .error reason => (h, some reason)
  | .ok cost =>
    ({ h.record (.drew h.machine.screen) with frames := h.frames + 1 }.elapse cost, none)

/-- Takes note of the screen and shows it. -/
def present (rig : Rig) (h : Host) : Host × Option String :=
  { h with machine := h.machine.noted }.draw rig

/-- Shows the screen if it may have changed. -/
def redraw (rig : Rig) (h : Host) : Host × Option String :=
  if h.machine.stale then h.present rig else (h, none)

/-! ## Input -/

/-- Passes events on to the keypad up to a wish to stop, and says whether there was one. -/
def hear (h : Host) : List KeyEvent → Host × Bool
  | [] => (h, false)
  | .quit :: _ => (h, true)
  | .down key :: es =>
    let h := h.noteAll (Notice.ofPressKey h.machine key)
    { h with machine := h.machine.pressKey key }.hear es
  | .up key :: es => { h with machine := h.machine.releaseKey key }.hear es

def receive (h : Host) : Arrival → Host × List KeyEvent
  | .events es => (h, es)
  | .strokes ks =>
    let (keyboard, es) := h.keyboard.poll h.clock ks
    ({ h with keyboard }.noteAll (ks.flatMap (Notice.ofKeystroke h.keyboard)), es)

/-- How a poll was answered. -/
inductive Heard where
  | goOn
  | quit
  | lost (reason : String)
  deriving DecidableEq, Repr

def poll (h : Host) : Poll → Host × Heard
  | .lost reason => (h, .lost reason)
  | .answered cost arrival =>
    let h := ({ h with polls := h.polls + 1 }.elapse cost).record .polled
    let (h, es) := h.receive arrival
    match h.hear es with
    | (h, true) => (h, .quit)
    | (h, false) => (h, .goOn)

/-! ## Steps -/

/-- The event of an instruction carried out by the step that led from `before` to `outcome`. -/
def executions (before : Machine) (outcome : Outcome) : List Event :=
  if before.waiting.isSome then []
  else
    match before.fetch, outcome with
    | .ok w, .advanced | .ok w, .parked => [.executed before.pc (.ofWord w)]
    | _, _ => []

def step (h : Host) : Host × Outcome :=
  let (machine, outcome) := h.machine.step
  let noted := h.noteAll (Notice.ofStep h.machine)
  ((executions h.machine outcome).foldl record { noted with machine }, outcome)

end Host

end Chip8Console
