import Chip8Console.Machine.Exec

/-!
# Sequences of actions

What a host can do to a machine between two looks at it: let it step, move its keys, tick its timers,
take note of its screen, give up a key wait, reset it, or load a program. A run of a machine is a list
of such actions, and what holds at its start and is kept by each of its actions holds at its end.

The routine actions are those that happen while a program runs: a host does them in any order, and
none of them gives the machine up.
-/

namespace Chip8Console

/-- Something done to a machine. -/
inductive Action where
  | step
  | press (key : UInt8)
  | release (key : UInt8)
  | tick
  | note
  | abandon
  | reset
  | load (source : ByteSource)

/-- Whether an action is one of those that happen while a program runs. -/
def Action.routine : Action → Bool
  | step | press _ | release _ | tick | note => true
  | abandon | reset | load _ => false

theorem eq_ok_of_toOption {ε α : Type} {result : Except ε α} {a : α}
    (h : result.toOption = some a) : result = .ok a := by
  cases result with
  | error e => cases h
  | ok b => exact congrArg Except.ok (Option.some.inj h)

namespace Machine

/-- A fresh machine with the bytes of a program where programs go. -/
def holding (program : List UInt8) : Machine :=
  { fresh true ⟨Vector.replicate 8 0, 0⟩ with
    ram := ⟨Ram.overlay (Vector.replicate 4096 0) 0x200 program, 0x200⟩ }

theorem step_of_waiting {m : Machine} {x : Nibble} (h : m.waiting = some x) :
    m.step = (m, .parked) := by
  simp [step, h]

theorem step_of_fetch {m : Machine} (hnone : m.waiting = none) {w : Word} (hfetch : m.fetch = .ok w) :
    m.step = m.exec (.ofWord w) := by
  simp [step, hnone, hfetch]

theorem step_of_fetch_error {m : Machine} (hnone : m.waiting = none) {f : Fault}
    (hfetch : m.fetch = .error f) : m.step = (m, .faulted f) := by
  simp [step, hnone, hfetch]

def upcoming (m : Machine) : Option Instruction :=
  if m.waiting.isSome then none else m.fetch.toOption.map Instruction.ofWord

theorem step_of_upcoming {m : Machine} {instruction : Instruction}
    (hupcoming : m.upcoming = some instruction) : m.step = m.exec instruction := by
  unfold upcoming at hupcoming
  split at hupcoming
  · cases hupcoming
  · next hnone =>
    obtain ⟨w, hfetch, rfl⟩ := Option.map_eq_some_iff.1 hupcoming
    exact step_of_fetch (Option.not_isSome_iff_eq_none.1 hnone) (eq_ok_of_toOption hfetch)

theorem upcoming_of_fetch {m : Machine} (hnone : m.waiting = none) {w : Word} (hfetch : m.fetch = .ok w) :
    m.upcoming = some (.ofWord w) := by
  simp [upcoming, hnone, hfetch, Except.toOption]

def act (m : Machine) : Action → Machine
  | .step => m.step.1
  | .press key => m.pressKey key
  | .release key => m.releaseKey key
  | .tick => m.tick
  | .note => m.noted
  | .abandon => m.abandonWait
  | .reset => m.reset
  | .load source => (m.load source).1

def after (m : Machine) (actions : List Action) : Machine := actions.foldl act m

def outcomes (m : Machine) : List Action → List Outcome
  | [] => []
  | .step :: actions => m.step.2 :: m.step.1.outcomes actions
  | action :: actions => (m.act action).outcomes actions

@[simp] theorem after_cons (m : Machine) (action : Action) (actions : List Action) :
    m.after (action :: actions) = (m.act action).after actions := rfl

theorem after_append (m : Machine) (actions later : List Action) :
    m.after (actions ++ later) = (m.after actions).after later := List.foldl_append

/-- What each of the actions keeps, all of them keep. -/
theorem after_induction {P : Machine → Prop} {actions : List Action}
    (hact : ∀ m, ∀ action ∈ actions, P m → P (m.act action)) {m : Machine} (hm : P m) :
    P (m.after actions) := by
  induction actions generalizing m with
  | nil => exact hm
  | cons action actions ih =>
      rw [after_cons]
      apply ih
      · intro m next hnext
        exact hact m next (List.mem_cons_of_mem _ hnext)
      · exact hact m action List.mem_cons_self hm

/-- If each of the actions keeps a property under which every step ends in one way, all steps of the
run end in that way. -/
theorem outcomes_induction {P : Machine → Prop} {outcome : Outcome} {actions : List Action}
    (hact : ∀ m, ∀ action ∈ actions, P m → P (m.act action))
    (hstep : ∀ m, P m → m.step.2 = outcome) {m : Machine} (hm : P m) :
    ∀ o ∈ m.outcomes actions, o = outcome := by
  induction actions generalizing m with
  | nil => simp [outcomes]
  | cons action actions ih =>
      have hrest : ∀ o ∈ (m.act action).outcomes actions, o = outcome := by
        apply ih
        · intro m next hnext
          exact hact m next (List.mem_cons_of_mem _ hnext)
        · exact hact m action List.mem_cons_self hm
      cases action with
      | step =>
          intro o ho
          rcases List.mem_cons.1 ho with rfl | ho
          · exact hstep m hm
          · exact hrest o ho
      | _ => exact hrest

end Machine

end Chip8Console
