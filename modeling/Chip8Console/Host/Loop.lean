import Chip8Console.Host.Basic

/-!
# The host loop

The host is called to run its machine, with or without a limit on the number of cycles, or to wait
for a key. A cycle is one poll, one step of the machine, one service of the timers, a redraw if the
screen has changed, and a sleep for what is left of the cycle's time. When a step leaves a key wait
pending, the cycle goes on in the wait: poll, service and redraw, and sleep for a timer period,
until a key goes down or the input asks to stop.

Each call is a machine of its own that takes one poll at a time. Between polls it is in a phase:
on top of a cycle, or inside a key wait, which may belong to a cycle. `resume` goes from one poll to
the next; `Stage.feed` is recursion on a list of polls, and `Call.perform` is a whole call.
-/

namespace Chip8Console

/-- A cycle of a run: what the run may still do, and when the cycle began. -/
structure Cycle where
  limit : Option Nat
  /-- How many cycles of the run are over. -/
  done : Nat
  started : Nat
  deriving DecidableEq, Repr

/-- What the host is about to poll for. -/
inductive Phase where
  | top (cycle : Cycle)
  | waiting (x : Nibble) (cycle : Option Cycle)
  deriving DecidableEq, Repr

inductive Stage where
  | running (phase : Phase) (host : Host)
  | ended (ending : Ending) (host : Host)
  /-- The timers never come to rest. -/
  | stalled

namespace Host

/-- The end of a run: the tone is ended if it is on, and a notice says how it went. -/
def finish (rig : Rig) (h : Host) (ending : Ending) : Stage :=
  let h := h.silence rig
  match ending with
  | .failed e => .ended ending (h.note (.aborted e h.machine))
  | _ => .ended ending (h.note (.stopped ending))

/-- The top of a cycle, or the end of the run if its limit is reached. -/
def beginCycle (rig : Rig) (h : Host) (limit : Option Nat) (done : Nat) : Stage :=
  if limit.any (· ≤ done) then h.finish rig .cycleLimit
  else .running (.top ⟨limit, done, h.clock⟩) h

/-- What follows the instruction of a cycle. -/
def endCycle (rig : Rig) (h : Host) (cycle : Cycle) : Stage :=
  match h.catchUp rig with
  | none => .stalled
  | some h =>
    match h.redraw rig with
    | (h, some reason) => h.finish rig (.failed (.terminal reason))
    | (h, none) =>
      (h.elapse (rig.cycle - (h.clock - cycle.started))).beginCycle rig cycle.limit (cycle.done + 1)

/-- A wait, or what the wait belongs to, ends in an error. -/
def fail (rig : Rig) (h : Host) (cycle : Option Cycle) (e : HostError) : Stage :=
  match cycle with
  | none => .ended (.failed e) h
  | some _ => h.finish rig (.failed e)

/-- A wait ends without a key. -/
def giveUp (rig : Rig) (h : Host) (cycle : Option Cycle) : Stage :=
  match cycle with
  | none => .ended .cancelled h
  | some _ => h.finish rig .quit

def beginWait (rig : Rig) (h : Host) (cycle : Option Cycle) : Stage :=
  match h.machine.waiting with
  | none => h.giveUp rig cycle
  | some x => .running (.waiting x cycle) (h.note (.awaiting x))

/-- A wait has had its key. -/
def answered (rig : Rig) (h : Host) (x : Nibble) (cycle : Option Cycle) : Stage :=
  match cycle with
  | none => .ended (.pressed h.machine.v[x]) h
  | some cycle => h.endCycle rig cycle

/-- A poll has not answered a wait. -/
def stayWaiting (rig : Rig) (h : Host) (x : Nibble) (cycle : Option Cycle) : Stage :=
  match h.catchUp rig with
  | none => .stalled
  | some h =>
    match h.redraw rig with
    | (h, some reason) => h.fail rig cycle (.terminal reason)
    | (h, none) => .running (.waiting x cycle) (h.elapse h.pacer.period)

/-- From one poll to the next. -/
def resume (rig : Rig) (h : Host) (phase : Phase) (poll : Poll) : Stage :=
  match phase, h.poll poll with
  | .top _, (h, .lost reason) => h.finish rig (.failed (.terminal reason))
  | .top _, (h, .quit) => h.finish rig .quit
  | .top cycle, (h, .goOn) =>
    match h.step with
    | (h, .faulted f) => h.finish rig (.failed (.fault f))
    | (h, .parked) => h.beginWait rig (some cycle)
    | (h, .advanced) => h.endCycle rig cycle
  | .waiting _ cycle, (h, .lost reason) => h.fail rig cycle (.terminal reason)
  | .waiting _ cycle, (h, .quit) => { h with machine := h.machine.abandonWait }.giveUp rig cycle
  | .waiting x cycle, (h, .goOn) =>
    if h.machine.waiting.isNone then h.answered rig x cycle else h.stayWaiting rig x cycle

end Host

/-- What a host can be called to do. -/
inductive Call where
  /-- Run until the input asks to stop, an error, or so many cycles. -/
  | run (limit : Option Nat)
  /-- Wait until a pending key wait is answered. -/
  | wait
  deriving DecidableEq, Repr

namespace Call

/-- The way to the first poll. A run shows the screen first, changed or not, and counts the timers'
time from here. -/
def start (rig : Rig) (h : Host) : Call → Stage
  | run limit =>
    let h := h.note (.starting h.machine.pc rig.cycle)
    match { h with timersAt := h.clock }.present rig with
    | (h, some reason) => h.finish rig (.failed (.terminal reason))
    | (h, none) => h.beginCycle rig limit 0
  | wait => h.beginWait rig none

end Call

/-- Goes on with polls as long as there are any and the call has not ended; the answer has those
left over. -/
def Stage.feed (rig : Rig) : Stage → List Poll → Stage × List Poll
  | .running phase h, poll :: polls => (h.resume rig phase poll).feed rig polls
  | stage, polls => (stage, polls)

def Call.perform (rig : Rig) (h : Host) (call : Call) (polls : List Poll) : Stage × List Poll :=
  (call.start rig h).feed rig polls

end Chip8Console
