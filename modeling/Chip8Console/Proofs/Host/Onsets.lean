import Chip8Console.Proofs.Host.Itinerary
import Chip8Console.Proofs.Host.Service
import Chip8Console.Proofs.Host.ToneEdges

/-!
# Tones that do not start

An instruction that sets the sound timer going should start the tone. But the host looks at the sound
timer only when it brings the timers up to date at the end of the cycle, and the ticks that are then due
come first, those of the time before the instruction included. If they count the timer down to zero again,
the host sees no change and the speaker is not called: the tone is swallowed. That is the only way: if the
timer outlasts the ticks, the speaker is called.
-/

namespace Chip8Console

def Event.startsTone : Event → Bool
  | sounded .starts _ => true
  | _ => false

def Stage.tops (p : Host → Bool) : Stage → Bool
  | .running (.top _) h => p h
  | _ => false

theorem Stage.exists_of_tops {p : Host → Bool} {stage : Stage} (h : stage.tops p) :
    ∃ c host, stage = .running (.top c) host ∧ p host := by
  cases stage with
  | running phase host =>
      cases phase with
      | top c => exact ⟨c, host, rfl, h⟩
      | waiting x c => cases h
  | ended ending host => cases h
  | stalled => cases h

namespace Host

/-- The next instruction of a host sets the sound timer going, and the tone is off. -/
structure SetsGoing (h : Host) (x : Nibble) : Prop where
  upcoming : h.machine.upcoming = some (.setSound x)
  value : h.machine.v[x] ≠ 0
  resting : h.machine.timers.sound = 0
  silent : h.tone.on = false

def ticksOwed (h : Host) : Nat := (h.pacer.pending + (h.clock - h.timersAt)) / h.pacer.period

/-- In a cycle that begins with some poll, an instruction sets the sound timer going while the tone is
off, and the service of the timers does not start the tone. -/
def Swallows (rig : Rig) (h : Host) (poll : Poll) : Prop :=
  ∃ polled x stepped served, h.poll poll = (polled, .goOn) ∧ polled.SetsGoing x ∧
    polled.step = (stepped, .advanced) ∧ stepped.catchUp rig = some served ∧
    Adds (fun e => !e.startsTone) stepped.history served.history

theorem SetsGoing.step {h : Host} {x : Nibble} (hsets : h.SetsGoing x) :
    ∃ stepped, h.step = (stepped, .advanced) ∧
      stepped.machine.timers.sound = h.machine.v[x] ∧ stepped.ticksOwed = h.ticksOwed := by
  have hmachine : h.machine.step = h.machine.exec (.setSound x) := Machine.step_of_upcoming hsets.upcoming
  refine ⟨h.step.1, Prod.ext rfl ?_, ?_, ?_⟩
  · show h.machine.step.2 = .advanced
    rw [hmachine]
    rfl
  · rw [machine_of_step (Prod.ext rfl rfl : h.step = (h.step.1, h.step.2))] at hmachine
    exact congrArg (fun answer => answer.1.timers.sound) hmachine
  · rw [step_eq, recordAll_eq, noteAll_eq]
    rfl

variable {rig : Rig}

/-- A service does not start the tone exactly if its ticks bring the sound timer to rest. -/
theorem keepsSilent_iff_of_catchUp (hspeaker : ∀ n tone, rig.speaker n tone = none) {h next : Host}
    (hworks : h.speakerWorks) (hsilent : h.tone.on = false) (hpos : 0 < h.pacer.period)
    (hcaught : h.catchUp rig = some next) :
    Adds (fun e => !e.startsTone) h.history next.history ↔
      h.machine.timers.sound.toNat ≤ h.ticksOwed := by
  obtain ⟨pacer, timers, ticks, helapse, rfl⟩ := catchUp_eq_some hcaught
  rw [Pacer.elapse_eq hpos, Option.some.injEq, Prod.mk.injEq, Prod.mk.injEq] at helapse
  obtain ⟨-, htimers, -⟩ := helapse
  have hsounding : timers.sounding ↔ ¬ h.machine.timers.sound.toNat ≤ h.ticksOwed := by
    rw [Timers.sounding_iff, ← htimers, Timers.sound_after, ticksOwed]
    omega
  have htone : (h.ticked pacer timers).tone.on = false := hsilent
  by_cases hlevel : timers.sounding
  · have hedge : (h.ticked pacer timers).tone.on ≠ timers.sounding := by
      rw [htone, hlevel]
      exact Bool.noConfusion
    have hcalls : (h.ticked pacer timers).speakerWorks := hworks
    obtain ⟨tone, hstarts, hfollowed⟩ := followTone_of_edge hspeaker hcalls hedge
    obtain rfl : tone = .starts := hstarts.2 hlevel
    rw [hfollowed]
    refine iff_of_false ?_ (hsounding.1 hlevel)
    rintro ⟨new, hnew, hkind⟩
    have hadded : new = [⟨h.clock, .caughtUp ticks timers⟩, ⟨h.clock, .sounded .starts none⟩] :=
      List.append_cancel_right hnew.symm
    have hsilence := hkind ⟨h.clock, .sounded .starts none⟩ (by simp [hadded])
    cases hsilence
  · have hsame : (h.ticked pacer timers).tone.on = timers.sounding := by
      rw [htone, Bool.eq_false_iff.2 hlevel]
    rw [followTone_of_level rig hsame]
    exact iff_of_true (.cons rfl) (Classical.not_not.1 (mt hsounding.2 hlevel))

/-- What becomes of the tone in a cycle whose instruction sets the sound timer going. -/
theorem keepsSilent_iff_of_setsGoing (hspeaker : ∀ n tone, rig.speaker n tone = none)
    {h stepped served : Host} {x : Nibble} (hworks : h.speakerWorks) (hsets : h.SetsGoing x)
    (hstep : h.step = (stepped, .advanced)) (hcaught : stepped.catchUp rig = some served) :
    0 < h.pacer.period ∧ (Adds (fun e => !e.startsTone) stepped.history served.history ↔
      h.machine.v[x].toNat ≤ h.ticksOwed) := by
  have hquiet := Quiet.of_step hstep
  obtain ⟨next, hnext, hsound, howed⟩ := hsets.step
  obtain rfl : next = stepped := (Prod.mk.inj (hnext.symm.trans hstep)).1
  have hpos : 0 < h.pacer.period := by
    rw [← hquiet.pacer]
    apply Nat.pos_of_ne_zero
    intro hperiod
    simp [catchUp_eq_none hperiod] at hcaught
  have hsilent : next.tone.on = false := hquiet.tone ▸ hsets.silent
  rw [keepsSilent_iff_of_catchUp hspeaker (hquiet.speakerWorks.trans hworks) hsilent
    (hquiet.pacer ▸ hpos) hcaught, hsound, howed]
  exact ⟨hpos, .rfl⟩

/-- A cycle swallows the tone exactly if the ticks that its service releases count the sound timer down
again. -/
theorem swallows_iff_of_works (hspeaker : ∀ n tone, rig.speaker n tone = none) {h : Host}
    (hworks : h.speakerWorks) (poll : Poll) :
    h.Swallows rig poll ↔ ∃ polled x, h.poll poll = (polled, .goOn) ∧ polled.SetsGoing x ∧
      0 < polled.pacer.period ∧ polled.machine.v[x].toNat ≤ polled.ticksOwed := by
  have hpolled (polled : Host) (hpoll : h.poll poll = (polled, .goOn)) : polled.speakerWorks := by
    have hquiet := Quiet.poll h poll
    rw [hpoll] at hquiet
    exact hquiet.speakerWorks.trans hworks
  constructor
  · rintro ⟨polled, x, stepped, served, hpoll, hsets, hstep, hcaught, hkeeps⟩
    obtain ⟨hpos, hiff⟩ :=
      keepsSilent_iff_of_setsGoing hspeaker (hpolled polled hpoll) hsets hstep hcaught
    exact ⟨polled, x, hpoll, hsets, hpos, hiff.1 hkeeps⟩
  · rintro ⟨polled, x, hpoll, hsets, hpos, hshort⟩
    obtain ⟨stepped, hstep, -, -⟩ := hsets.step
    have hpos' : 0 < stepped.pacer.period := (Quiet.of_step hstep).pacer ▸ hpos
    have hcaught : stepped.catchUp rig ≠ none := catchUp_ne_none hpos'
    obtain ⟨served, hcaught⟩ := Option.ne_none_iff_exists'.1 hcaught
    obtain ⟨-, hiff⟩ :=
      keepsSilent_iff_of_setsGoing hspeaker (hpolled polled hpoll) hsets hstep hcaught
    exact ⟨polled, x, stepped, served, hpoll, hsets, hstep, hcaught, hiff.2 hshort⟩

/-- A speaker that does not fail is not taken for broken. -/
theorem kept_speakerWorks (hspeaker : ∀ n tone, rig.speaker n tone = none) :
    Kept rig fun h => h.speakerWorks where
  quiet hquiet hworks := hquiet.speakerWorks.trans hworks
  recount hworks := hworks
  catchUp {h next} hcaught hworks := by
    obtain ⟨pacer, timers, ticks, -, rfl⟩ := catchUp_eq_some hcaught
    have hcalls : (h.ticked pacer timers).speakerWorks := hworks
    by_cases hlevel : (h.ticked pacer timers).tone.on = timers.sounding
    · rw [followTone_of_level rig hlevel]
      exact hcalls
    · obtain ⟨tone, -, hfollowed⟩ := followTone_of_edge hspeaker hcalls hlevel
      rw [hfollowed]
      exact hcalls
  finish {h} ending hworks := by
    have hsilenced : (h.silence rig).speakerWorks := by
      cases hon : h.tone.on with
      | false => rwa [silence_of_off rig hon]
      | true =>
          rw [silence_of_on hspeaker hworks hon]
          exact hworks
    cases ending <;> exact hsilenced

theorem speakerWorks_of_running (hspeaker : ∀ n tone, rig.speaker n tone = none) {entry h : Host}
    (hworks : entry.speakerWorks) {call : Call} {taken left : List Poll} {phase : Phase}
    (hrun : call.perform rig entry taken = (.running phase h, left)) : h.speakerWorks := by
  have hrunning := (kept_speakerWorks hspeaker).perform hworks call taken
  rw [hrun] at hrunning
  exact hrunning

/-- In a run whose speaker works, a tone is swallowed exactly in those cycles in which the instruction sets
the sound timer going for no longer than the ticks that the service of the cycle releases. -/
theorem run_swallows_iff (hspeaker : ∀ n tone, rig.speaker n tone = none) {entry h : Host}
    (hworks : entry.speakerWorks) {limit : Option Nat} {taken : List Poll} {c : Cycle}
    (hrun : (Call.run limit).perform rig entry taken = (.running (.top c) h, [])) (poll : Poll) :
    h.Swallows rig poll ↔ ∃ polled x, h.poll poll = (polled, .goOn) ∧ polled.SetsGoing x ∧
      0 < polled.pacer.period ∧ polled.machine.v[x].toNat ≤ polled.ticksOwed :=
  swallows_iff_of_works hspeaker (speakerWorks_of_running hspeaker hworks hrun) poll

/-- A host whose program lets eleven cycles pass and then sets the sound timer to one. -/
def oneTick : Host :=
  new (.holding ([0x60, 0x01] ++ (List.replicate 11 [0x61, 0x00]).flatten ++ [0xF0, 0x18]))
    (.ofLayout .conventional) 60 0

def idlePoll : Poll := .answered 0 (.events [])

/-- Twelve cycles take longer than a tick. -/
theorem oneTick_run :
    ∃ c h polled, (Call.run (some 13)).perform .steady oneTick (List.replicate 12 idlePoll) =
        (.running (.top c) h, []) ∧
      h.poll idlePoll = (polled, .goOn) ∧ polled.SetsGoing 0 ∧ 0 < polled.pacer.period ∧
        polled.machine.v[(0 : Nibble)].toNat ≤ polled.ticksOwed := by
  have htop : ((Call.run (some 13)).perform .steady oneTick (List.replicate 12 idlePoll)).1.tops
      fun h => decide ((h.poll idlePoll).2 = .goOn ∧
        (h.poll idlePoll).1.machine.upcoming = some (.setSound 0) ∧
        (h.poll idlePoll).1.machine.v[(0 : Nibble)] = 1 ∧
        (h.poll idlePoll).1.machine.timers.sound = 0 ∧ (h.poll idlePoll).1.tone.on = false ∧
        0 < (h.poll idlePoll).1.pacer.period ∧ 1 ≤ (h.poll idlePoll).1.ticksOwed) := by
    decide +kernel
  obtain ⟨c, h, hrunning, htests⟩ := Stage.exists_of_tops htop
  obtain ⟨hgoesOn, hupcoming, hone, hresting, hsilent, hpos, howed⟩ := of_decide_eq_true htests
  refine ⟨c, h, (h.poll idlePoll).1, ?_, Prod.ext rfl hgoesOn, ?_, hpos, ?_⟩
  · exact Prod.ext hrunning (Stage.left_eq_nil_of_running hrunning)
  · exact ⟨hupcoming, by simp [hone], hresting, hsilent⟩
  · rw [hone]
    exact howed

theorem oneTick_swallowed :
    (∀ n tone, Rig.steady.speaker n tone = none) ∧ oneTick.speakerWorks ∧
      ∃ c h, (Call.run (some 13)).perform .steady oneTick (List.replicate 12 idlePoll) =
          (.running (.top c) h, []) ∧ h.Swallows .steady idlePoll := by
  have hspeaker : ∀ n tone, Rig.steady.speaker n tone = none := fun _ _ => rfl
  obtain ⟨c, h, polled, hrun, hpoll, hsets, hpos, hshort⟩ := oneTick_run
  refine ⟨hspeaker, rfl, c, h, hrun, ?_⟩
  exact (run_swallows_iff hspeaker rfl hrun idlePoll).2 ⟨polled, 0, hpoll, hsets, hpos, hshort⟩

/-- So a tone may be swallowed though it was off before and the speaker works. -/
theorem tone_swallowed :
    ¬ ∀ (rig : Rig) (entry h : Host) (limit : Option Nat) (taken : List Poll) (c : Cycle) (poll : Poll),
      (∀ n tone, rig.speaker n tone = none) → entry.speakerWorks → entry.tone.on = false →
      (Call.run limit).perform rig entry taken = (.running (.top c) h, []) → ¬ h.Swallows rig poll := by
  intro hclaim
  have hspeaker : ∀ n tone, Rig.steady.speaker n tone = none := fun _ _ => rfl
  obtain ⟨c, h, polled, hrun, hpoll, hsets, hpos, hshort⟩ := oneTick_run
  have hnew : oneTick.speakerWorks := rfl
  have hworks : h.speakerWorks := speakerWorks_of_running hspeaker hnew hrun
  apply hclaim .steady oneTick h (some 13) _ c idlePoll hspeaker rfl rfl hrun
  exact (swallows_iff_of_works hspeaker hworks idlePoll).2 ⟨polled, 0, hpoll, hsets, hpos, hshort⟩

end Host

end Chip8Console
