import Chip8Console.Proofs.Host.Session
import Chip8Console.Proofs.Machine.Parking

/-!
# The itinerary of a run

Where a course asks the same of a host in all phases of a call, an itinerary follows a run from cycle to
cycle and may ask something else at each point of the way: on top of a cycle, when its poll has been heard,
in its key wait, when all is carried out, and at the end of the run, with the phase of the last poll. Of a
run that the terminal has brought down nothing is asked.

`Itinerary.Kept` says of each leg of the way that it leads from one point to the next. A run is then led
from poll to poll by `resume`; `exists_last_poll` finds the poll that has ended it.
-/

namespace Chip8Console

/-- The last of the polls that a call has taken, if it has taken any. -/
theorem Stage.exists_last_poll {rig : Rig} {stage : Stage} {polls left : List Poll} {ending : Ending}
    {now : Host} (hended : stage.feed rig polls = (.ended ending now, left)) :
    (stage = .ended ending now ∧ polls = left) ∨
      ∃ taken last phase h, polls = taken ++ last :: left ∧
        stage.feed rig taken = (.running phase h, []) ∧ h.resume rig phase last = .ended ending now := by
  induction polls generalizing stage with
  | nil =>
      cases stage <;> cases hended
      exact .inl ⟨rfl, rfl⟩
  | cons poll polls ih =>
      cases stage with
      | ended ending h =>
          cases hended
          exact .inl ⟨rfl, rfl⟩
      | stalled => cases hended
      | running phase h =>
          right
          rcases ih hended with ⟨hresume, rfl⟩ | ⟨taken, last, phase', h', rfl, htaken, hresume⟩
          · exact ⟨[], poll, phase, h, rfl, rfl, hresume⟩
          · exact ⟨poll :: taken, last, phase', h', rfl, htaken, hresume⟩

/-- A host steps as its machine does. -/
theorem Host.machine_of_step {h next : Host} {outcome : Outcome} (hstep : h.step = (next, outcome)) :
    h.machine.step = (next.machine, outcome) := by
  rw [step_eq, recordAll_eq] at hstep
  cases hstep
  rfl

/-- A machine that is parked waits for a key, so its host begins to wait. -/
theorem Host.beginWait_of_parked (rig : Rig) {h next : Host} (hstep : h.step = (next, .parked))
    (cycle : Option Cycle) : ∃ x, next.machine.waiting = some x ∧
      next.beginWait rig cycle = .running (.waiting x cycle) (next.note (.awaiting x)) := by
  have hparked := machine_of_step hstep
  have hwaiting := Machine.waiting_of_parked (congrArg Prod.snd hparked)
  rw [hparked] at hwaiting
  obtain ⟨x, hx⟩ : ∃ x, next.machine.waiting = some x := Option.isSome_iff_exists.1 hwaiting
  exact ⟨x, hx, by simp only [beginWait, hx]⟩

/-- What is asked of a run, by the points of its way. -/
structure Itinerary where
  top : Cycle → Host → Prop
  /-- The poll of a cycle has been heard, and the instruction comes next. -/
  heard : Cycle → Host → Prop
  waiting : Nibble → Cycle → Host → Prop
  /-- The instruction of a cycle has been carried out, and its key wait is over. -/
  behind : Cycle → Host → Prop
  /-- The run is about to take leave, and its last poll came in some phase. -/
  atEnd : Phase → Ending → Host → Prop

namespace Itinerary

/-- What is asked of a host that is about to poll. -/
def At (way : Itinerary) : Phase → Host → Prop
  | .top cycle, h => way.top cycle h
  | .waiting x (some cycle), h => way.waiting x cycle h
  | .waiting _ none, _ => False

/-- How a run has ended with a poll in some phase. -/
def Leaves (way : Itinerary) (rig : Rig) (phase : Phase) (ending : Ending) (now : Host) : Prop :=
  ∃ before : Host, before.finish rig ending = .ended ending now ∧
    ((∃ reason, ending = .failed (.terminal reason)) ∨ way.atEnd phase ending before)

/-- What is asked of a stage that a poll in some phase leads to. -/
def Leads (way : Itinerary) (rig : Rig) (phase : Phase) : Stage → Prop
  | .running next h => way.At next h
  | .ended ending now => way.Leaves rig phase ending now
  | .stalled => True

/-- What has to be shown of the legs of the way. -/
structure Kept (rig : Rig) (way : Itinerary) : Prop where
  hear : ∀ {c : Cycle} {h next : Host} {poll : Poll}, way.top c h → h.poll poll = (next, .goOn) →
    way.heard c next
  quit : ∀ {c : Cycle} {h next : Host} {poll : Poll}, way.top c h → h.poll poll = (next, .quit) →
    way.atEnd (.top c) .quit next
  fault : ∀ {c : Cycle} {h next : Host} {f : Fault}, way.heard c h → h.step = (next, .faulted f) →
    way.atEnd (.top c) (.failed (.fault f)) next
  park : ∀ {c : Cycle} {h next : Host} {x : Nibble}, way.heard c h → h.step = (next, .parked) →
    next.machine.waiting = some x → way.waiting x c (next.note (.awaiting x))
  advance : ∀ {c : Cycle} {h next : Host}, way.heard c h → h.step = (next, .advanced) → way.behind c next
  stay : ∀ {x : Nibble} {c : Cycle} {h polled caught next : Host} {poll : Poll}, way.waiting x c h →
    h.poll poll = (polled, .goOn) → polled.catchUp rig = some caught →
    caught.redraw rig = (next, none) → way.waiting x c (next.elapse next.pacer.period)
  answer : ∀ {x : Nibble} {c : Cycle} {h next : Host} {poll : Poll}, way.waiting x c h →
    h.poll poll = (next, .goOn) → next.machine.waiting = none → way.behind c next
  giveUp : ∀ {x : Nibble} {c : Cycle} {h next : Host} {poll : Poll}, way.waiting x c h →
    h.poll poll = (next, .quit) →
    way.atEnd (.waiting x (some c)) .quit { next with machine := next.machine.abandonWait }
  /-- From the end of a cycle to the next one. -/
  turn : ∀ {c : Cycle} {h caught next : Host}, way.behind c h → h.catchUp rig = some caught →
    caught.redraw rig = (next, none) → c.limit.any (· ≤ c.done + 1) = false →
    let slept := next.elapse (rig.cycle - (next.clock - c.started))
    way.top ⟨c.limit, c.done + 1, slept.clock⟩ slept
  /-- From the end of a cycle to the limit. -/
  limit : ∀ {c : Cycle} {h caught next : Host} (phase : Phase), way.behind c h →
    h.catchUp rig = some caught → caught.redraw rig = (next, none) → c.limit.any (· ≤ c.done + 1) →
    way.atEnd phase .cycleLimit (next.elapse (rig.cycle - (next.clock - c.started)))

namespace Kept

variable {rig : Rig} {way : Itinerary} {h : Host}

theorem finished {phase : Phase} {ending : Ending} (hend : way.atEnd phase ending h) :
    way.Leads rig phase (h.finish rig ending) := by
  obtain ⟨now, hfinish⟩ := h.exists_finish rig ending
  rw [hfinish]
  exact ⟨h, hfinish, .inr hend⟩

theorem broken (rig : Rig) (way : Itinerary) (phase : Phase) (h : Host) (reason : String) :
    way.Leads rig phase (h.finish rig (.failed (.terminal reason))) := by
  obtain ⟨now, hfinish⟩ := h.exists_finish rig (.failed (.terminal reason))
  rw [hfinish]
  exact ⟨h, hfinish, .inl ⟨reason, rfl⟩⟩

theorem endCycle (kept : way.Kept rig) {c : Cycle} (hbehind : way.behind c h) (phase : Phase) :
    way.Leads rig phase (h.endCycle rig c) := by
  unfold Host.endCycle
  split
  · trivial
  · next caught hcaught =>
    split
    · exact broken rig way phase _ _
    · next next hredraw =>
      unfold Host.beginCycle
      split
      · next hlimit => exact finished (kept.limit phase hbehind hcaught hredraw hlimit)
      · next hlimit => exact kept.turn hbehind hcaught hredraw (Bool.eq_false_iff.2 hlimit)

theorem beginWait (kept : way.Kept rig) {c : Cycle} {polled : Host} (hheard : way.heard c polled)
    (hstep : polled.step = (h, .parked)) : way.Leads rig (.top c) (h.beginWait rig (some c)) := by
  obtain ⟨x, hx, hbegins⟩ := Host.beginWait_of_parked rig hstep (some c)
  rw [hbegins]
  exact kept.park hheard hstep hx

/-- From the top of a cycle to the next poll, if the host is on its way once it has heard the poll. -/
theorem resume_top (kept : way.Kept rig) {c : Cycle} {poll : Poll}
    (hheard : ∀ next, h.poll poll = (next, .goOn) → way.heard c next)
    (hquit : ∀ next, h.poll poll = (next, .quit) → way.atEnd (.top c) .quit next) :
    way.Leads rig (.top c) (h.resume rig (.top c) poll) := by
  obtain ⟨polled, heard, hpoll⟩ : ∃ polled heard, h.poll poll = (polled, heard) := ⟨_, _, rfl⟩
  simp only [Host.resume, hpoll]
  cases heard with
  | lost reason => exact broken rig way _ _ _
  | quit => exact finished (hquit polled hpoll)
  | goOn =>
      obtain ⟨next, outcome, hstep⟩ : ∃ next outcome, polled.step = (next, outcome) := ⟨_, _, rfl⟩
      simp only [hstep]
      cases outcome with
      | faulted f => exact finished (kept.fault (hheard polled hpoll) hstep)
      | parked => exact kept.beginWait (hheard polled hpoll) hstep
      | advanced => exact kept.endCycle (kept.advance (hheard polled hpoll) hstep) _

theorem resume_waiting (kept : way.Kept rig) {x : Nibble} {c : Cycle} (hwaits : way.waiting x c h)
    (poll : Poll) :
    way.Leads rig (.waiting x (some c)) (h.resume rig (.waiting x (some c)) poll) := by
  obtain ⟨polled, heard, hpoll⟩ : ∃ polled heard, h.poll poll = (polled, heard) := ⟨_, _, rfl⟩
  simp only [Host.resume, hpoll]
  cases heard with
  | lost reason => exact broken rig way _ _ _
  | quit => exact finished (kept.giveUp hwaits hpoll)
  | goOn =>
      simp only
      split
      · next hnone =>
        exact kept.endCycle (kept.answer hwaits hpoll (Option.isNone_iff_eq_none.1 hnone)) _
      · unfold Host.stayWaiting
        split
        · trivial
        · next caught hcaught =>
          split
          · exact broken rig way _ _ _
          · next next hredraw => exact kept.stay hwaits hpoll hcaught hredraw

/-- From one poll to the next. -/
theorem resume (kept : way.Kept rig) {phase : Phase} (hat : way.At phase h) (poll : Poll) :
    way.Leads rig phase (h.resume rig phase poll) := by
  cases phase with
  | top c => exact kept.resume_top (fun _ => kept.hear hat) fun _ => kept.quit hat
  | waiting x cycle =>
      cases cycle with
      | none => exact hat.elim
      | some c => exact kept.resume_waiting hat poll

/-- A run that polls again is on its way. -/
theorem feed (kept : way.Kept rig) {stage : Stage} {polls left : List Poll}
    (hstage : ∀ phase h, stage = .running phase h → way.At phase h) {phase : Phase}
    (hrunning : stage.feed rig polls = (.running phase h, left)) : way.At phase h := by
  induction polls generalizing stage with
  | nil =>
      cases stage <;> cases hrunning
      exact hstage _ _ rfl
  | cons poll polls ih =>
      cases stage with
      | ended ending now => cases hrunning
      | stalled => cases hrunning
      | running origin before =>
          apply ih ?_ hrunning
          intro phase h hresume
          have hleads := kept.resume (hstage origin before rfl) poll
          rw [hresume] at hleads
          exact hleads

/-- A run that has come to a stage and ends from there, at once or with one of the next polls. -/
theorem ended (kept : way.Kept rig) {origin : Phase} {stage : Stage} (hleads : way.Leads rig origin stage)
    {polls left : List Poll} {ending : Ending} {now : Host}
    (hended : stage.feed rig polls = (.ended ending now, left)) :
    (polls = left ∧ way.Leaves rig origin ending now) ∨
      ∃ taken last phase h, polls = taken ++ last :: left ∧
        stage.feed rig taken = (.running phase h, []) ∧ way.At phase h ∧
        way.Leaves rig phase ending now := by
  rcases Stage.exists_last_poll hended with ⟨rfl, hpolls⟩ | ⟨taken, last, phase, h, hpolls, htaken, hlast⟩
  · exact .inl ⟨hpolls, hleads⟩
  · have hat : way.At phase h := by
      apply kept.feed ?_ htaken
      rintro phase h rfl
      exact hleads
    have hleaves := kept.resume hat last
    rw [hlast] at hleaves
    exact .inr ⟨taken, last, phase, h, hpolls, htaken, hat, hleaves⟩

end Kept

def anyway : Itinerary where
  top _ _ := True
  heard _ _ := True
  waiting _ _ _ := True
  behind _ _ := True
  atEnd _ _ _ := True

theorem kept_anyway (rig : Rig) : anyway.Kept rig := by
  constructor <;> intros <;> trivial

end Itinerary

namespace Host

/-- The host of a run that has shown the screen and is about to poll for the first time. -/
def ready (rig : Rig) (h : Host) : Host := ((h.opened rig).present rig).1

/-- How a run comes to its first poll, if it does. -/
theorem start_run_cases (rig : Rig) (h : Host) (limit : Option Nat) :
    (∃ reason, (Call.run limit).start rig h = (h.ready rig).finish rig (.failed (.terminal reason))) ∨
    (limit = some 0 ∧ (Call.run limit).start rig h = (h.ready rig).finish rig .cycleLimit) ∨
    limit ≠ some 0 ∧
      (Call.run limit).start rig h = .running (.top ⟨limit, 0, (h.ready rig).clock⟩) (h.ready rig) := by
  have hopened : { h.note (.starting h.machine.pc rig.cycle) with
      timersAt := (h.note (.starting h.machine.pc rig.cycle)).clock } = h.opened rig := rfl
  simp only [Call.start, hopened]
  split
  · next drawn reason hpresent => exact .inl ⟨reason, by rw [ready, hpresent]⟩
  · next drawn hpresent =>
    have hready : h.ready rig = drawn := congrArg Prod.fst hpresent
    rw [hready, beginCycle]
    cases limit with
    | none => exact .inr (.inr ⟨by simp, rfl⟩)
    | some n =>
        cases n with
        | zero => exact .inr (.inl ⟨rfl, rfl⟩)
        | succ n => exact .inr (.inr ⟨by simp, rfl⟩)

/-- A run that ends fails to show the screen, has a limit of zero or hears a poll. -/
theorem run_cases {rig : Rig} {entry now : Host} {limit : Option Nat} {polls left : List Poll}
    {ending : Ending}
    (hrun : (Call.run limit).perform rig entry polls = (.ended ending now, left)) :
    (∃ reason, ending = .failed (.terminal reason) ∧
      (entry.ready rig).finish rig ending = .ended ending now) ∨
    (limit = some 0 ∧ ending = .cycleLimit ∧
      (entry.ready rig).finish rig ending = .ended ending now) ∨
    ∃ first rest, polls = first :: rest ∧ limit ≠ some 0 ∧
      (Call.run limit).start rig entry =
        .running (.top ⟨limit, 0, (entry.ready rig).clock⟩) (entry.ready rig) ∧
      ((entry.ready rig).resume rig (.top ⟨limit, 0, (entry.ready rig).clock⟩) first).feed rig rest =
        (.ended ending now, left) := by
  unfold Call.perform at hrun
  rcases start_run_cases rig entry limit with ⟨reason, hstart⟩ | ⟨hlimit, hstart⟩ | ⟨hlimit, hstart⟩
  · obtain ⟨next, hfinish⟩ := (entry.ready rig).exists_finish rig (.failed (.terminal reason))
    rw [hstart, hfinish, Stage.feed_ended] at hrun
    cases hrun
    exact .inl ⟨reason, rfl, hfinish⟩
  · obtain ⟨next, hfinish⟩ := (entry.ready rig).exists_finish rig .cycleLimit
    rw [hstart, hfinish, Stage.feed_ended] at hrun
    cases hrun
    exact .inr (.inl ⟨hlimit, rfl, hfinish⟩)
  · rw [hstart] at hrun
    cases polls with
    | nil => cases hrun
    | cons first rest => exact .inr (.inr ⟨first, rest, rfl, hlimit, hstart, hrun⟩)

/-- A run does not end without taking leave. -/
theorem exists_finish_of_run {rig : Rig} {entry now : Host} {limit : Option Nat} {polls left : List Poll}
    {ending : Ending}
    (hrun : (Call.run limit).perform rig entry polls = (.ended ending now, left)) :
    ∃ before : Host, before.finish rig ending = .ended ending now := by
  rcases run_cases hrun with
    ⟨-, -, hfinish⟩ | ⟨-, -, hfinish⟩ | ⟨first, rest, -, -, -, hfeed⟩
  · exact ⟨_, hfinish⟩
  · exact ⟨_, hfinish⟩
  · have hkept := Itinerary.kept_anyway rig
    let c : Cycle := ⟨limit, 0, (entry.ready rig).clock⟩
    have hleads : Itinerary.anyway.Leads rig (.top c) ((entry.ready rig).resume rig (.top c) first) :=
      hkept.resume_top (fun _ _ => trivial) fun _ _ => trivial
    rcases hkept.ended hleads hfeed with
      ⟨-, before, hfinish, -⟩ | ⟨taken, last, phase, h, -, -, -, before, hfinish, -⟩
    · exact ⟨before, hfinish⟩
    · exact ⟨before, hfinish⟩

end Host

end Chip8Console
