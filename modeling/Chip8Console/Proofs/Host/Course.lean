import Chip8Console.Proofs.Host.Changes

/-!
# The course of a call

A host that is about to poll is steady. When an instruction has been carried out it lags behind, until the
timers are up to date and the screen is shown; then it is steady again, unless the draw fails. A course
says what holds of the host in either condition and at the end of the call, and `Course.Kept` says it of
each thing that the host does. From there the module goes through the host loop once: a call that sets out
on a course that is kept stays on it.
-/

namespace Chip8Console

/-- What is asked of a host along a call. -/
structure Course where
  steady : Host → Prop
  behind : Host → Prop
  atEnd : Ending → Host → Prop
  /-- Whether the timers may fail to come to rest. -/
  stalls : Prop

def Course.throughout (P : Host → Prop) (stalls : Prop) : Course := ⟨P, P, fun _ => P, stalls⟩

def Stage.On (course : Course) : Stage → Prop
  | .running _ h => course.steady h
  | .ended ending h => course.atEnd ending h
  | .stalled => course.stalls

namespace Course

/-- What the parts of a call make of a course. -/
structure Kept (rig : Rig) (course : Course) : Prop where
  await : ∀ {h : Host} (x : Nibble), course.steady h → course.steady (h.note (.awaiting x))
  elapse : ∀ {h : Host} (time : Nat), course.steady h → course.steady (h.elapse time)
  abandon : ∀ {h : Host}, course.steady h → course.steady { h with machine := h.machine.abandonWait }
  advance : ∀ {h next : Host}, course.steady h → h.step = (next, .advanced) → course.behind next
  /-- A step that faults or finds a key wait pending. -/
  stay : ∀ {h next : Host} {outcome : Outcome}, course.steady h → h.step = (next, outcome) →
    outcome ≠ .advanced → course.steady next
  lag : ∀ {h : Host}, course.steady h → course.behind h
  stall : ∀ {h : Host}, course.behind h → h.catchUp rig = none → course.stalls
  shown : ∀ {h caught next : Host}, course.behind h → h.catchUp rig = some caught →
    caught.redraw rig = (next, none) → course.steady next
  lost : ∀ {h caught next : Host} {reason : String}, course.behind h → h.catchUp rig = some caught →
    caught.redraw rig = (next, some reason) → course.atEnd (.failed (.terminal reason)) next
  stop : ∀ {h : Host} (ending : Ending), course.steady h → course.atEnd ending h
  finish : ∀ {h next : Host} {ending : Ending}, course.atEnd ending h →
    h.finish rig ending = .ended ending next → course.atEnd ending next

/-- A course that asks for the same at all times is kept if quiet changes keep it, and the service of the
timers and the end of a run do. -/
theorem kept_throughout {rig : Rig} {P : Host → Prop} {stalls : Prop}
    (hquiet : ∀ {h h' : Host}, h.Quiet h' → P h → P h')
    (hstall : ∀ {h : Host}, P h → h.catchUp rig = none → stalls)
    (hcaught : ∀ {h caught : Host}, P h → h.catchUp rig = some caught → P caught)
    (hfinish : ∀ {h next : Host} {ending : Ending}, P h → h.finish rig ending = .ended ending next →
      P next) : (throughout P stalls).Kept rig where
  await _ hh := hquiet (.record _ rfl) hh
  elapse time hh := hquiet (.elapse _ time) hh
  abandon hh := hquiet (.machine _ _) hh
  advance hh hstep := hquiet (.of_step hstep) hh
  stay hh hstep _ := hquiet (.of_step hstep) hh
  lag hh := hh
  stall hh := hstall hh
  shown hh hcatchUp hredraw := hquiet (.of_redraw hredraw) (hcaught hh hcatchUp)
  lost hh hcatchUp hredraw := hquiet (.of_redraw hredraw) (hcaught hh hcatchUp)
  stop _ hh := hh
  finish hh := hfinish hh

namespace Kept

variable {rig : Rig} {course : Course} {h : Host}

theorem finished (kept : course.Kept rig) {ending : Ending} (hend : course.atEnd ending h) :
    (h.finish rig ending).On course := by
  obtain ⟨next, hfinish⟩ := h.exists_finish rig ending
  rw [hfinish]
  exact kept.finish hend hfinish

theorem beginCycle (kept : course.Kept rig) (hsteady : course.steady h) (limit : Option Nat)
    (done : Nat) : (h.beginCycle rig limit done).On course := by
  unfold Host.beginCycle
  split
  · exact kept.finished (kept.stop _ hsteady)
  · exact hsteady

theorem endCycle (kept : course.Kept rig) (hbehind : course.behind h) (cycle : Cycle) :
    (h.endCycle rig cycle).On course := by
  unfold Host.endCycle
  split
  · next hcaught => exact kept.stall hbehind hcaught
  · next caught hcaught =>
    split
    · next drawn reason hredraw => exact kept.finished (kept.lost hbehind hcaught hredraw)
    · next drawn hredraw =>
      exact kept.beginCycle (kept.elapse _ (kept.shown hbehind hcaught hredraw)) _ _

theorem fail (kept : course.Kept rig) {e : HostError} (hend : course.atEnd (.failed e) h)
    (cycle : Option Cycle) : (h.fail rig cycle e).On course := by
  cases cycle with
  | none => exact hend
  | some cycle => exact kept.finished hend

theorem giveUp (kept : course.Kept rig) (hsteady : course.steady h) (cycle : Option Cycle) :
    (h.giveUp rig cycle).On course := by
  cases cycle with
  | none => exact kept.stop .cancelled hsteady
  | some cycle => exact kept.finished (kept.stop .quit hsteady)

theorem beginWait (kept : course.Kept rig) (hsteady : course.steady h) (cycle : Option Cycle) :
    (h.beginWait rig cycle).On course := by
  unfold Host.beginWait
  split
  · exact kept.giveUp hsteady cycle
  · exact kept.await _ hsteady

theorem answered (kept : course.Kept rig) (hsteady : course.steady h) (x : Nibble)
    (cycle : Option Cycle) : (h.answered rig x cycle).On course := by
  cases cycle with
  | none => exact kept.stop (.pressed h.machine.v[x]) hsteady
  | some cycle => exact kept.endCycle (kept.lag hsteady) cycle

theorem stayWaiting (kept : course.Kept rig) (hsteady : course.steady h) (x : Nibble)
    (cycle : Option Cycle) : (h.stayWaiting rig x cycle).On course := by
  have hbehind := kept.lag hsteady
  unfold Host.stayWaiting
  split
  · next hcaught => exact kept.stall hbehind hcaught
  · next caught hcaught =>
    split
    · next drawn reason hredraw => exact kept.fail (kept.lost hbehind hcaught hredraw) cycle
    · next drawn hredraw => exact kept.elapse _ (kept.shown hbehind hcaught hredraw)

/-- The stage that a poll leads to, if the host is steady once it has heard the poll. -/
theorem resume (kept : course.Kept rig) {poll : Poll} (hsteady : course.steady (h.poll poll).1)
    (phase : Phase) : (h.resume rig phase poll).On course := by
  unfold Host.resume
  split
  · next hpoll =>
    rw [hpoll] at hsteady
    exact kept.finished (kept.stop _ hsteady)
  · next hpoll =>
    rw [hpoll] at hsteady
    exact kept.finished (kept.stop _ hsteady)
  · next hpoll =>
    rw [hpoll] at hsteady
    split
    · next f hstep => exact kept.finished (kept.stop _ (kept.stay hsteady hstep (by simp)))
    · next hstep => exact kept.beginWait (kept.stay hsteady hstep (by simp)) _
    · next hstep => exact kept.endCycle (kept.advance hsteady hstep) _
  · next hpoll =>
    rw [hpoll] at hsteady
    exact kept.fail (kept.stop _ hsteady) _
  · next hpoll =>
    rw [hpoll] at hsteady
    exact kept.giveUp (kept.abandon hsteady) _
  · next hpoll =>
    rw [hpoll] at hsteady
    split
    · exact kept.answered hsteady _ _
    · exact kept.stayWaiting hsteady _ _

theorem startRun (kept : course.Kept rig) (limit : Option Nat)
    (hshown : ∀ next, (h.opened rig).present rig = (next, none) → course.steady next)
    (hlost : ∀ next reason, (h.opened rig).present rig = (next, some reason) →
      course.atEnd (.failed (.terminal reason)) next) :
    ((Call.run limit).start rig h).On course := by
  have hopened : { h.note (.starting h.machine.pc rig.cycle) with
      timersAt := (h.note (.starting h.machine.pc rig.cycle)).clock } = h.opened rig := rfl
  simp only [Call.start, hopened]
  split
  · next drawn reason hpresent => exact kept.finished (hlost drawn reason hpresent)
  · next drawn hpresent => exact kept.beginCycle (hshown drawn hpresent) limit 0

theorem feed (kept : course.Kept rig)
    (hpoll : ∀ (h : Host) (poll : Poll), course.steady h → course.steady (h.poll poll).1)
    (polls : List Poll) {stage : Stage} (hstage : stage.On course) :
    (stage.feed rig polls).1.On course := by
  induction polls generalizing stage with
  | nil => cases stage <;> exact hstage
  | cons poll polls ih =>
      cases stage with
      | running phase h => exact ih (kept.resume (hpoll h poll hstage) phase)
      | ended ending h => exact hstage
      | stalled => exact hstage

end Kept

end Course

end Chip8Console
