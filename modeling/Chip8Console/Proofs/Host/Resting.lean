import Chip8Console.Proofs.Host.Itinerary

/-!
# Between two instructions

Nothing but a step carries out an instruction, and nothing but a step begins a key wait. What else a host
does between two polls leaves the pending wait alone, and its history grows by no instruction: the host
rests. A poll carries out nothing either, and it ends a wait if it brings a key that goes down before any
wish to stop.
-/

namespace Chip8Console

def Event.instruction? : Event → Option Instruction
  | executed _ instruction => some instruction
  | _ => none

def Event.idle (e : Event) : Bool := e.instruction?.isNone

/-- The instructions of a history, the latest first. -/
def carriedOut (events : List Stamped) : List Instruction := events.filterMap fun s => s.event.instruction?

theorem carriedOut_append {new : List Stamped} (hnew : ∀ s ∈ new, s.event.idle) (events : List Stamped) :
    carriedOut (new ++ events) = carriedOut events := by
  have hnone : carriedOut new = [] := by
    apply List.filterMap_eq_nil_iff.2
    intro s hs
    exact Option.isNone_iff_eq_none.1 (hnew s hs)
  rw [carriedOut, List.filterMap_append]
  exact congrArg (· ++ carriedOut events) hnone

/-- Whether a key goes down before any wish to stop. -/
def answersWait : List KeyEvent → Bool
  | [] | .quit :: _ => false
  | .down _ :: _ => true
  | .up _ :: es => answersWait es

theorem Machine.pressKey_waiting (m : Machine) (key : UInt8) : (m.pressKey key).waiting = none := by
  cases hwaiting : m.waiting with
  | none => rw [pressKey_of_waiting_eq_none hwaiting, hwaiting]
  | some x =>
      rw [pressKey_of_waiting_eq_some hwaiting]
      rfl

namespace Host

def brings (h : Host) : Poll → List KeyEvent
  | .answered cost arrival => ((h.asked cost).receive arrival).2
  | .lost _ => []

/-! ### Polls -/

theorem hear_waiting (h : Host) (es : List KeyEvent) :
    (h.hear es).1.machine.waiting = if answersWait es then none else h.machine.waiting := by
  have hnone (h : Host) (hh : h.machine.waiting = none) (es : List KeyEvent) :
      (h.hear es).1.machine.waiting = none := by
    induction es generalizing h with
    | nil => exact hh
    | cons e es ih =>
        cases e with
        | quit => exact hh
        | down key => exact ih _ (Machine.pressKey_waiting _ key)
        | up key => exact ih _ hh
  induction es generalizing h with
  | nil => rfl
  | cons e es ih =>
      cases e with
      | quit => rfl
      | down key => exact hnone _ (Machine.pressKey_waiting _ key) es
      | up key => exact ih _

theorem poll_waiting (h : Host) (poll : Poll) :
    (h.poll poll).1.machine.waiting =
      if answersWait (h.brings poll) then none else h.machine.waiting := by
  cases poll with
  | lost reason => rfl
  | answered cost arrival =>
      have hreceived : ((h.asked cost).receive arrival).1.machine = h.machine := by
        cases arrival with
        | events es => rfl
        | strokes ks => exact noteAll_machine _ _
      rw [poll_answered, hearing, hear_waiting, hreceived]
      rfl

/-- A poll does not begin a wait. -/
theorem waiting_of_poll {h next : Host} {poll : Poll} {heard : Heard} (hnone : h.machine.waiting = none)
    (hpoll : h.poll poll = (next, heard)) : next.machine.waiting = none := by
  have hpolled := poll_waiting h poll
  rw [hpoll, hnone, ite_self] at hpolled
  exact hpolled

theorem poll_idle (h : Host) (poll : Poll) : Adds Event.idle h.history (h.poll poll).1.history := by
  have hkept : KeptByPoll fun next => Adds Event.idle h.history next.history :=
    ⟨fun _ hh => hh.trans (.cons rfl), fun _ hh => hh, fun _ hh => hh.trans (.cons rfl),
      fun _ hh => hh, fun _ hh => hh⟩
  exact hkept.poll poll (.refl _ _)

/-! ### Rest -/

/-- A change in which no instruction is carried out and no wait begins or ends. -/
structure Rests (h next : Host) : Prop where
  waiting : next.machine.waiting = h.machine.waiting
  history : Adds Event.idle h.history next.history

namespace Rests

variable {rig : Rig} {h middle next : Host}

theorem refl (h : Host) : h.Rests h := ⟨rfl, .refl _ _⟩

theorem trans (first : h.Rests middle) (second : middle.Rests next) : h.Rests next :=
  ⟨second.waiting.trans first.waiting, first.history.trans second.history⟩

theorem note (h : Host) (n : Notice) : h.Rests (h.note n) := ⟨rfl, .cons rfl⟩

theorem elapse (h : Host) (time : Nat) : h.Rests (h.elapse time) := ⟨rfl, .refl _ _⟩

theorem of_spoken (hspoken : h.Spoken next) : h.Rests next := by
  refine ⟨congrArg Machine.waiting hspoken.machine, hspoken.history.mono ?_⟩
  intro e he
  cases e with
  | sounded tone failure => rfl
  | noted n => rfl
  | _ => cases he

theorem present (rig : Rig) (h : Host) : h.Rests (h.present rig).1 := by
  unfold Host.present draw
  split
  · exact ⟨rfl, .refl _ _⟩
  · exact ⟨rfl, .cons rfl⟩

theorem of_redraw {failure : Option String} (hredraw : h.redraw rig = (next, failure)) :
    h.Rests next := by
  have hrests : h.Rests (h.redraw rig).1 := by
    unfold redraw
    split
    · exact present rig h
    · exact refl h
  rw [hredraw] at hrests
  exact hrests

theorem of_catchUp (hcaught : h.catchUp rig = some next) : h.Rests next := by
  obtain ⟨pacer, timers, ticks, -, rfl⟩ := catchUp_eq_some hcaught
  have hticked : h.Rests (h.ticked pacer timers) := ⟨rfl, .refl _ _⟩
  have hfollowed := hticked.trans (of_spoken (.followTone rig _))
  exact hfollowed.trans ⟨rfl, .cons rfl⟩

theorem of_finish {ending : Ending} (hfinish : h.finish rig ending = .ended ending next) :
    h.Rests next := by
  obtain ⟨n, rfl⟩ := exists_note_of_finish hfinish
  exact (of_spoken (.silence rig h)).trans (note _ n)

/-- A host rests from the beginning of a run to its first poll. -/
theorem ready (rig : Rig) (h : Host) : h.Rests (h.ready rig) := by
  have hopened : h.Rests (h.opened rig) := ⟨rfl, .cons rfl⟩
  exact hopened.trans (present rig _)

/-- A host rests while it brings its timers and its screen up to date and then sleeps. -/
theorem of_service {caught : Host} {failure : Option String} (hcaught : h.catchUp rig = some caught)
    (hredraw : caught.redraw rig = (next, failure)) (time : Nat) : h.Rests (next.elapse time) :=
  ((of_catchUp hcaught).trans (of_redraw hredraw)).trans (elapse next time)

end Rests

/-! ### Steps -/

/-- A step that carries out an instruction, which a machine that waits does not. -/
structure CarriesOut (h : Host) (instruction : Instruction) (next : Host) : Prop where
  waiting : h.machine.waiting = none
  history : ∃ noted, Adds Event.idle h.history noted ∧
    next.history = ⟨h.clock, .executed h.machine.pc instruction⟩ :: noted

theorem noteStep_idle (h : Host) :
    Adds Event.idle h.history (h.noteAll (Notice.ofStep h.machine)).history := by
  apply List.foldlRecOn (motive := fun next => Adds Event.idle h.history next.history) _ Host.note
    (.refl _ _)
  intro next hnext n _
  exact hnext.trans (.cons rfl)

variable {h next : Host}

theorem rests_of_still {outcome : Outcome} (hstill : h.machine.step = (h.machine, outcome))
    (hnone : executions h.machine outcome = []) (hstep : h.step = (next, outcome)) : h.Rests next := by
  rw [step_eq, hstill, hnone] at hstep
  cases hstep
  exact ⟨rfl, noteStep_idle h⟩

theorem carriesOut_of_fetch {w : Word} {outcome : Outcome} (hwaiting : h.machine.waiting = none)
    (hevents : executions h.machine outcome = [.executed h.machine.pc (.ofWord w)])
    (hstep : h.step = (next, outcome)) : h.CarriesOut (.ofWord w) next := by
  have houtcome : h.machine.step.2 = outcome := congrArg Prod.snd (machine_of_step hstep)
  have hclock : (h.noteAll (Notice.ofStep h.machine)).clock = h.clock := by rw [noteAll_eq]
  rw [step_eq, houtcome, hevents] at hstep
  cases hstep
  refine ⟨hwaiting, _, noteStep_idle h, ?_⟩
  rw [← hclock]
  rfl

theorem rests_of_fault {f : Fault} (hstep : h.step = (next, .faulted f)) : h.Rests next := by
  have houtcome := congrArg Prod.snd (machine_of_step hstep)
  have hnone : executions h.machine (.faulted f) = [] := by
    unfold executions
    split
    · rfl
    · cases h.machine.fetch <;> rfl
  exact rests_of_still (Machine.step_of_faults (Machine.faults_of_step houtcome)) hnone hstep

/-- A machine is parked because it was waiting before or because it begins to. -/
theorem step_parked (hstep : h.step = (next, .parked)) :
    (h.machine.waiting.isSome ∧ h.Rests next) ∨
      ∃ x, h.CarriesOut (.awaitKey x) next ∧ next.machine.waiting = some x := by
  have hmachine := machine_of_step hstep
  rcases Machine.step_wait_cases h.machine with
    ⟨f, -, hfaulted⟩ | ⟨hwaiting, hparked⟩ | ⟨w, hwaiting, hfetch, hcarried⟩
  · simp [hmachine] at hfaulted
  · exact .inl ⟨hwaiting, rests_of_still hparked (by simp [executions, hwaiting]) hstep⟩
  · rcases hcarried with ⟨x, hw, -, hx⟩ | ⟨hadvanced, -⟩
    · have hcarries : h.CarriesOut (.ofWord w) next :=
        carriesOut_of_fetch hwaiting (by simp [executions, hwaiting, hfetch]) hstep
      rw [hw] at hcarries
      rw [hmachine] at hx
      exact .inr ⟨x, hcarries, hx⟩
    · simp [hmachine] at hadvanced

theorem step_advanced (hstep : h.step = (next, .advanced)) :
    (∃ instruction, h.CarriesOut instruction next) ∧ next.machine.waiting = none := by
  have hmachine := machine_of_step hstep
  rcases Machine.step_wait_cases h.machine with
    ⟨f, -, hfaulted⟩ | ⟨-, hparked⟩ | ⟨w, hwaiting, hfetch, hcarried⟩
  · simp [hmachine] at hfaulted
  · simp [hmachine] at hparked
  · rcases hcarried with ⟨x, -, hparked, -⟩ | ⟨-, hnone⟩
    · simp [hmachine] at hparked
    · have hcarries : h.CarriesOut (.ofWord w) next :=
        carriesOut_of_fetch hwaiting (by simp [executions, hwaiting, hfetch]) hstep
      rw [hmachine] at hnone
      exact ⟨⟨_, hcarries⟩, hnone⟩

end Host

end Chip8Console
