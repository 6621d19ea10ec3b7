import Chip8Console.Proofs.Host.Hearing
import Chip8Console.Proofs.Host.Resting
import Chip8Console.Proofs.Machine.Action

/-!
# A run that is asked to stop

A wish to stop that comes in a key wait gives the wait up. On top of a cycle nothing is given up, and
nothing has to be: a cycle does not end before its key wait has, so no wait is pending there. But the first
cycle may find one that was pending when the run began. If the first poll asks to stop before any key goes
down, the run ends at once and that wait is still pending.
-/

namespace Chip8Console.Host

/-- A poll with a wish to stop is heard as one. -/
theorem poll_quit_iff (h : Host) (poll : Poll) : (h.poll poll).2 = .quit ↔ .quit ∈ h.brings poll := by
  cases poll with
  | lost reason => simp [Host.poll, brings]
  | answered cost arrival =>
      rw [poll_answered, brings, hearing, hear_eq]
      by_cases hquit : .quit ∈ ((h.asked cost).receive arrival).2 <;> simp [hquit]

/-- The way of a run that does not end in a pending wait if it is asked to stop. -/
def unburdened : Itinerary where
  top _ h := h.machine.waiting = none
  heard _ _ := True
  waiting _ _ _ := True
  behind _ h := h.machine.waiting = none
  atEnd _ ending h := ending = .quit → h.machine.waiting = none

theorem kept_unburdened (rig : Rig) : unburdened.Kept rig where
  hear _ _ := trivial
  quit hnone hpoll _ := waiting_of_poll hnone hpoll
  fault _ _ hending := by cases hending
  park _ _ _ := trivial
  advance _ hstep := (step_advanced hstep).2
  stay _ _ _ _ := trivial
  answer _ _ hnone := hnone
  giveUp _ _ _ := rfl
  turn hnone hcaught hredraw _ := (Rests.of_service hcaught hredraw _).waiting.trans hnone
  limit _ _ _ _ _ hending := by cases hending

/-- A run that goes on after its first poll does not end in a pending wait if it is asked to stop. -/
theorem waiting_of_quit_later {rig : Rig} {h now : Host} {c : Cycle} {first : Poll}
    (hgoesOn : (h.poll first).2 ≠ .quit) {rest left : List Poll}
    (hrun : (h.resume rig (.top c) first).feed rig rest = (.ended .quit now, left)) :
    now.machine.waiting = none := by
  have hkept := kept_unburdened rig
  have hleads : unburdened.Leads rig (.top c) (h.resume rig (.top c) first) := by
    apply hkept.resume_top fun _ _ => trivial
    intro next hpoll
    exact absurd (congrArg Prod.snd hpoll) hgoesOn
  have hleaves : ∃ phase, unburdened.Leaves rig phase .quit now := by
    rcases hkept.ended hleads hrun with ⟨-, hleaves⟩ | ⟨taken, last, phase, h, -, -, -, hleaves⟩
    · exact ⟨_, hleaves⟩
    · exact ⟨phase, hleaves⟩
  obtain ⟨phase, before, hfinish, ⟨reason, hending⟩ | hend⟩ := hleaves
  · cases hending
  · exact (Rests.of_finish hfinish).waiting.trans (hend rfl)

/-- When a run has been asked to stop, a wait is pending exactly if it was pending before the run and the
first poll asked to stop before any key went down. -/
theorem waiting_after_quit {rig : Rig} {entry now : Host} {limit : Option Nat} {polls left : List Poll}
    (hrun : (Call.run limit).perform rig entry polls = (.ended .quit now, left)) (x : Nibble) :
    now.machine.waiting = some x ↔
      entry.machine.waiting = some x ∧
        ∃ first rest, polls = first :: rest ∧ .quit ∈ (entry.ready rig).brings first ∧
          answersWait ((entry.ready rig).brings first) = false := by
  rcases run_cases hrun with ⟨reason, hending, -⟩ | ⟨-, hending, -⟩ | ⟨first, rest, rfl, -, -, hfeed⟩
  · cases hending
  · cases hending
  have hready : (entry.ready rig).machine.waiting = entry.machine.waiting := (Rests.ready rig entry).waiting
  have hfirst := poll_waiting (entry.ready rig) first
  rw [hready] at hfirst
  by_cases hquit : ((entry.ready rig).poll first).2 = .quit
  · have hmem := (poll_quit_iff _ first).1 hquit
    obtain ⟨polled, hpoll⟩ : ∃ polled, (entry.ready rig).poll first = (polled, .quit) :=
      ⟨_, Prod.ext rfl hquit⟩
    obtain ⟨next, hfinish⟩ := polled.exists_finish rig .quit
    simp only [resume, hpoll, hfinish, Stage.feed_ended] at hfeed
    cases hfeed
    rw [hpoll] at hfirst
    rw [(Rests.of_finish hfinish).waiting, hfirst]
    cases hanswers : answersWait ((entry.ready rig).brings first) <;> simp [hmem, hanswers]
  · have hnone := waiting_of_quit_later hquit hfeed
    have hmem := mt (poll_quit_iff _ first).2 hquit
    simp [hnone, hmem]

def alreadyWaiting : Host := new (Machine.holding [0xF0, 0x0A]).step.1 (.ofLayout .conventional) 60 0

def stopAtOnce : List Poll := [.answered 0 (.events [.quit])]

theorem alreadyWaiting_run :
    ∃ now left, (Call.run none).perform .steady alreadyWaiting stopAtOnce = (.ended .quit now, left) ∧
      now.machine.waiting = some 0 := by
  have hends : ((Call.run none).perform .steady alreadyWaiting stopAtOnce).1.ends fun ending now =>
      ending == .quit && now.machine.waiting == some 0 := by
    decide +kernel
  generalize (Call.run none).perform .steady alreadyWaiting stopAtOnce = run at hends ⊢
  obtain ⟨stage, left⟩ := run
  obtain ⟨ending, now, rfl, hquit⟩ := Stage.exists_of_ends hends
  rw [Bool.and_eq_true, beq_iff_eq, beq_iff_eq] at hquit
  obtain ⟨rfl, hwaiting⟩ := hquit
  exact ⟨now, left, rfl, hwaiting⟩

theorem alreadyWaiting_waits_on :
    ∃ now left, (Call.run none).perform .steady alreadyWaiting stopAtOnce = (.ended .quit now, left) ∧
      now.machine.waiting = some 0 := by
  obtain ⟨now, left, hrun, -⟩ := alreadyWaiting_run
  have hwaiting : alreadyWaiting.machine.waiting = some 0 := by decide +kernel
  have hfirst : ∃ first rest, stopAtOnce = first :: rest ∧
      .quit ∈ (alreadyWaiting.ready .steady).brings first ∧
        answersWait ((alreadyWaiting.ready .steady).brings first) = false :=
    ⟨_, _, rfl, List.mem_singleton_self _, rfl⟩
  exact ⟨now, left, hrun, (waiting_after_quit hrun 0).2 ⟨hwaiting, hfirst⟩⟩

/-- So a wish to stop does not always end a wait. -/
theorem wait_outlives_quit :
    ¬ ∀ (rig : Rig) (entry now : Host) (limit : Option Nat) (polls left : List Poll),
      (Call.run limit).perform rig entry polls = (.ended .quit now, left) →
      now.machine.waiting = none := by
  intro hclaim
  obtain ⟨now, left, hrun, hwaiting⟩ := alreadyWaiting_run
  rw [hclaim .steady alreadyWaiting now none stopAtOnce left hrun] at hwaiting
  cases hwaiting

end Chip8Console.Host
