import Chip8Console.Proofs.Host.Itinerary
import Chip8Console.Proofs.Host.Mute
import Chip8Console.Proofs.Host.ToneEdges

/-!
# A speaker that may fail

Calls to the speaker may fail, and a host makes do. What it does, and what its calls come to, is the same
for every speaker. If a call fails that is made when the timers are brought up to date, the speaker is not
called again. And as long as no call has failed, a run does not end with the tone on: the last call that
has been made, if any, is the end of a tone.
-/

namespace Chip8Console

def Event.fails : Event → Bool
  | sounded _ failure => failure.isSome
  | _ => false

def Flawless (events : List Stamped) : Prop := ∀ s ∈ events, s.event.fails = false

/-- Whether a call has failed and nothing has been done since. -/
def justFailed (events : List Stamped) : Bool :=
  (events.takeWhile fun s => s.event.spoken).any fun s => s.event.fails

/-- Whether a call has failed that was made when the timers were brought up to date. -/
def FailedInService : List Stamped → Prop
  | [] => False
  | s :: earlier => (s.event.services ∧ justFailed earlier) ∨ FailedInService earlier

/-- No call follows at once on one that has failed, and none ever follows on one that has failed when the
timers were brought up to date. -/
def StaysSilent : List Stamped → Prop
  | [] => True
  | s :: earlier =>
    (s.event.sounds → ¬ justFailed earlier ∧ ¬ FailedInService earlier) ∧ StaysSilent earlier

instance decidableFailedInService : DecidablePred FailedInService
  | [] => .isFalse not_false
  | s :: earlier =>
    have := decidableFailedInService earlier
    inferInstanceAs (Decidable ((s.event.services ∧ justFailed earlier) ∨ FailedInService earlier))

/-! ### Histories one event longer -/

section Cons

variable {s : Stamped} {earlier : List Stamped}

theorem fails_eq_false_of_not_sounds (h : s.event.sounds = false) : s.event.fails = false := by
  obtain ⟨time, e⟩ := s
  cases e with
  | sounded tone failure => cases h
  | _ => rfl

theorem justFailed_cons (h : s.event.fails = false) (hearlier : justFailed earlier = false) :
    justFailed (s :: earlier) = false := by
  unfold justFailed at hearlier ⊢
  rw [List.takeWhile_cons]
  split
  · rw [List.any_cons, h, hearlier]
    rfl
  · rfl

theorem justFailed_cons_of_not_spoken (h : s.event.spoken = false) : justFailed (s :: earlier) = false := by
  simp [justFailed, h]

theorem failedInService_cons_of_not_services (h : s.event.services = false) :
    FailedInService (s :: earlier) ↔ FailedInService earlier := by
  simp [FailedInService, h]

theorem staysSilent_cons_of_not_sounds (h : s.event.sounds = false) :
    StaysSilent (s :: earlier) ↔ StaysSilent earlier := by
  simp [StaysSilent, h]

theorem Flawless.of_cons (h : Flawless (s :: earlier)) : Flawless earlier :=
  fun e he => h e (List.mem_cons_of_mem _ he)

end Cons

namespace Host

/-- What a host knows of the calls that it has made, with its tone on or off and its speaker working or
not. -/
structure Minds (events : List Stamped) (on works : Bool) : Prop where
  silent : StaysSilent events
  settled : justFailed events = false
  muted : FailedInService events → works = false
  started : Flawless events → lastTone events = some .starts → on ∧ works
  /-- If the latest event is the end of a run. -/
  left : ∀ s earlier, events = s :: earlier → s.event.endsRun → Flawless events →
    lastTone events ≠ some .starts

namespace Minds

variable {events : List Stamped} {on works : Bool}

theorem nil (on works : Bool) : Minds [] on works :=
  ⟨trivial, rfl, False.elim, by simp [lastTone], by simp⟩

theorem quiet (hminds : Minds events on works) {s : Stamped} (hs : s.event.quiet) :
    Minds (s :: events) on works := by
  simp only [Event.quiet, Bool.and_eq_true, Bool.not_eq_true'] at hs
  obtain ⟨⟨hends, hservices⟩, hsounds⟩ := hs
  refine ⟨?_, ?_, ?_, ?_, ?_⟩
  · exact (staysSilent_cons_of_not_sounds hsounds).2 hminds.silent
  · exact justFailed_cons (fails_eq_false_of_not_sounds hsounds) hminds.settled
  · rw [failedInService_cons_of_not_services hservices]
    exact hminds.muted
  · intro hflawless
    rw [lastTone_cons_of_not_sounds hsounds]
    exact hminds.started hflawless.of_cons
  · intro s' earlier heq hends'
    cases heq
    simp [hends] at hends'

/-- A host whose speaker works may call it. -/
theorem mayCall (hminds : Minds events on true) (time : Nat) (tone : Tone) (failure : Option String) :
    StaysSilent (⟨time, .sounded tone failure⟩ :: events) :=
  ⟨fun _ => ⟨by simp [hminds.settled], fun hfailed => Bool.noConfusion (hminds.muted hfailed)⟩,
    hminds.silent⟩

/-- The timers have been brought up to date. -/
theorem serve (hsilent : StaysSilent events)
    (hmuted : justFailed events ∨ FailedInService events → works = false)
    (hstarted : Flawless events → lastTone events = some .starts → on ∧ works) (time : Nat)
    (ticks : UInt32) (timers : Timers) : Minds (⟨time, .caughtUp ticks timers⟩ :: events) on works where
  silent := ⟨Bool.noConfusion, hsilent⟩
  settled := justFailed_cons_of_not_spoken rfl
  muted hfailed := hmuted (hfailed.imp_left And.right)
  started hflawless := hstarted hflawless.of_cons
  left s earlier heq hends := by
    cases heq
    cases hends

theorem serveWithoutCall (hminds : Minds events on works) {on' : Bool} (hkept : works → on' = on)
    (time : Nat) (ticks : UInt32) (timers : Timers) :
    Minds (⟨time, .caughtUp ticks timers⟩ :: events) on' works := by
  apply serve hminds.silent
  · rintro (hfailed | hfailed)
    · simp [hminds.settled] at hfailed
    · exact hminds.muted hfailed
  · intro hflawless hstarts
    obtain ⟨hon, hworks⟩ := hminds.started hflawless hstarts
    exact ⟨(hkept hworks).trans hon, hworks⟩

theorem serveWithCall (hminds : Minds events on true) {on' : Bool} {tone : Tone}
    (htone : tone = .starts → on') (time : Nat) (ticks : UInt32) (timers : Timers) :
    Minds (⟨time, .caughtUp ticks timers⟩ :: ⟨time, .sounded tone none⟩ :: events) on' true := by
  apply serve (hminds.mayCall _ _ _)
  · rintro (hfailed | hfailed)
    · rw [justFailed_cons rfl hminds.settled] at hfailed
      cases hfailed
    · exact hminds.muted ((failedInService_cons_of_not_services rfl).1 hfailed)
  · rintro - hstarts
    exact ⟨htone (Option.some.inj hstarts), rfl⟩

/-- After a call that has failed the speaker is taken for broken, which is all that is asked. -/
theorem serveWithLostCall (hminds : Minds events on true) (on' : Bool) (tone : Tone) (reason : String)
    (time : Nat) (ticks : UInt32) (timers : Timers) :
    Minds (⟨time, .caughtUp ticks timers⟩ :: ⟨time, .noted (.muted reason)⟩ ::
      ⟨time, .sounded tone (some reason)⟩ :: events) on' false := by
  apply serve
  · exact (staysSilent_cons_of_not_sounds rfl).2 (hminds.mayCall _ _ _)
  · exact fun _ => rfl
  · intro hflawless
    have hfine := hflawless.of_cons ⟨time, .sounded tone (some reason)⟩ List.mem_cons_self
    cases hfine

/-- A run has ended. -/
theorem leave (hsilent : StaysSilent events) (hmuted : FailedInService events → works = false)
    (hended : Flawless events → lastTone events ≠ some .starts) (time : Nat) {e : Event}
    (he : e.endsRun) : Minds (⟨time, e⟩ :: events) on works := by
  obtain ⟨hsounds, hservices⟩ := Event.calm_of_endsRun he
  have hspoken : e.spoken = false := by
    cases e with
    | noted n => cases n <;> first | rfl | cases he
    | _ => cases he
  have hlast : lastTone (⟨time, e⟩ :: events) = lastTone events := lastTone_cons_of_not_sounds hsounds
  refine ⟨?_, justFailed_cons_of_not_spoken hspoken, ?_, ?_, ?_⟩
  · exact (staysSilent_cons_of_not_sounds hsounds).2 hsilent
  · rw [failedInService_cons_of_not_services hservices]
    exact hmuted
  · rw [hlast]
    exact fun hflawless hstarts => absurd hstarts (hended hflawless.of_cons)
  · rw [hlast]
    exact fun _ _ _ _ hflawless => hended hflawless.of_cons

end Minds

theorem followTone_of_lost_call {rig : Rig} {h : Host} {detector : EdgeDetector} {tone : Tone}
    {reason : String} (hworks : h.speakerWorks)
    (hedge : h.tone.observe h.machine.timers = (detector, some tone))
    (hspeaker : rig.speaker h.calls tone = some reason) :
    h.followTone rig =
      { { h with tone := detector, calls := h.calls + 1 }.record (.sounded tone (some reason)) with
        speakerWorks := false }.note (.muted reason) := by
  simp only [followTone, hedge, hworks, sound, hspeaker, if_true]

theorem silence_of_lost_call {rig : Rig} {h : Host} {reason : String}
    (hcalls : h.tone.on && h.speakerWorks) (hspeaker : rig.speaker h.calls .ends = some reason) :
    h.silence rig = ({ h with calls := h.calls + 1 }.record (.sounded .ends (some reason))).note
      (.stillSounding reason) := by
  simp only [silence, hcalls, sound, hspeaker, if_true]

/-- What a host knows of the calls that it has made since some moment. -/
def MindsSince (since : List Stamped) (h : Host) : Prop :=
  ∃ events, h.history = events ++ since ∧ Minds events h.tone.on h.speakerWorks

namespace MindsSince

variable {since : List Stamped} {rig : Rig} {h next : Host}

theorem refl (h : Host) : h.MindsSince h.history := ⟨[], rfl, .nil _ _⟩

theorem quiet (hh : h.MindsSince since) (hquiet : h.Quiet next) : next.MindsSince since := by
  obtain ⟨events, hhistory, hminds⟩ := hh
  have hcons (s : Stamped) (earlier : List Stamped) (hs : s.event.quiet)
      (hearlier : ∃ events, earlier = events ++ since ∧ Minds events h.tone.on h.speakerWorks) :
      ∃ events, s :: earlier = events ++ since ∧ Minds events h.tone.on h.speakerWorks := by
    obtain ⟨events, rfl, hminds⟩ := hearlier
    exact ⟨s :: events, rfl, hminds.quiet hs⟩
  have hnext := hquiet.history.induction hcons ⟨events, hhistory, hminds⟩
  rw [← hquiet.tone, ← hquiet.speakerWorks] at hnext
  exact hnext

theorem followTone (hh : h.MindsSince since) (rig : Rig) (ticks : UInt32) (timers : Timers) :
    ((h.followTone rig).record (.caughtUp ticks timers)).MindsSince since := by
  obtain ⟨events, hhistory, hminds⟩ := hh
  by_cases hlevel : h.tone.on = h.machine.timers.sounding
  · rw [followTone_of_level rig hlevel]
    exact ⟨_ :: events, congrArg _ hhistory, hminds.serveWithoutCall (fun _ => rfl) _ _ _⟩
  obtain ⟨tone, htone, hedge⟩ := EdgeDetector.observe_of_edge hlevel
  cases hworks : h.speakerWorks with
  | false =>
      -- The edge is seen, but nobody is told of it.
      rw [followTone_of_broken rig hworks]
      refine ⟨_ :: events, congrArg _ hhistory, hminds.serveWithoutCall ?_ _ _ _⟩
      simp [hworks]
  | true =>
      rw [hworks] at hminds
      cases hspeaker : rig.speaker h.calls tone with
      | none =>
          rw [followTone_of_call hworks hedge hspeaker]
          refine ⟨⟨h.clock, .caughtUp ticks timers⟩ :: ⟨h.clock, .sounded tone none⟩ :: events,
            by simp [record, hhistory], ?_⟩
          rw [record_tone, record_tone]
          show Minds _ _ h.speakerWorks
          rw [hworks]
          exact hminds.serveWithCall htone.1 _ _ _
      | some reason =>
          rw [followTone_of_lost_call hworks hedge hspeaker]
          exact ⟨⟨h.clock, .caughtUp ticks timers⟩ :: ⟨h.clock, .noted (.muted reason)⟩ ::
            ⟨h.clock, .sounded tone (some reason)⟩ :: events, by simp [record, note, hhistory],
            hminds.serveWithLostCall _ _ _ _ _ _⟩

theorem catchUp (hh : h.MindsSince since) (hcaught : h.catchUp rig = some next) :
    next.MindsSince since := by
  obtain ⟨pacer, timers, ticks, -, rfl⟩ := catchUp_eq_some hcaught
  have hticked : (h.ticked pacer timers).MindsSince since := hh
  exact hticked.followTone rig ticks timers

theorem finish (hh : h.MindsSince since) (ending : Ending) :
    (h.finish rig ending).Holds (MindsSince since) := by
  obtain ⟨events, hhistory, hminds⟩ := hh
  have hended (e : Event) (he : e.endsRun) : ((h.silence rig).record e).MindsSince since := by
    by_cases hcalls : h.tone.on && h.speakerWorks
    · have hworks : h.speakerWorks = true := ((Bool.and_eq_true _ _).mp hcalls).2
      have hmayCall (failure : Option String) :
          StaysSilent (⟨h.clock, .sounded .ends failure⟩ :: events) := by
        rw [hworks] at hminds
        exact hminds.mayCall _ _ _
      cases hspeaker : rig.speaker h.calls .ends with
      | none =>
          rw [silence_of_call hcalls hspeaker]
          refine ⟨⟨h.clock, e⟩ :: ⟨h.clock, .sounded .ends none⟩ :: events,
            by simp [record, hhistory], ?_⟩
          apply Minds.leave (hmayCall none) _ _ _ he
          · rw [failedInService_cons_of_not_services rfl]
            exact hminds.muted
          · simp [lastTone]
      | some reason =>
          rw [silence_of_lost_call hcalls hspeaker]
          refine ⟨⟨h.clock, e⟩ :: ⟨h.clock, .noted (.stillSounding reason)⟩ ::
            ⟨h.clock, .sounded .ends (some reason)⟩ :: events, by simp [record, note, hhistory], ?_⟩
          apply Minds.leave _ _ _ _ he
          · exact (staysSilent_cons_of_not_sounds rfl).2 (hmayCall (some reason))
          · rw [failedInService_cons_of_not_services rfl, failedInService_cons_of_not_services rfl]
            exact hminds.muted
          · simp [lastTone]
    · have hquiet : h.silence rig = h := by simp [silence, hcalls]
      rw [hquiet]
      refine ⟨⟨h.clock, e⟩ :: events, congrArg _ hhistory, ?_⟩
      apply Minds.leave hminds.silent hminds.muted _ _ he
      intro hflawless hstarts
      obtain ⟨hon, hworks⟩ := hminds.started hflawless hstarts
      simp [hon, hworks] at hcalls
  cases ending with
  | failed e => exact hended _ rfl
  | _ => exact hended _ rfl

theorem kept (rig : Rig) (since : List Stamped) : Kept rig (MindsSince since) where
  quiet hquiet hh := hh.quiet hquiet
  recount hh := hh
  catchUp hcaught hh := hh.catchUp hcaught
  finish ending hh := hh.finish ending

end MindsSince

/-- A call of a session comes to what it would come to on its own. -/
theorem exists_perform_of_mem_session {rig : Rig} {h : Host} {polls : List Poll} {turns : List Turn}
    {turn : Turn} {stage : Stage} (hmem : (turn, stage) ∈ turns.zip (h.session rig polls turns)) :
    ∃ entry given, (turn.call.perform rig entry given).1 = stage := by
  induction turns generalizing h polls with
  | nil => cases hmem
  | cons first turns ih =>
      rw [session] at hmem
      split at hmem
      · next ending now left heq =>
        rcases List.mem_cons.1 hmem with hfirst | hmem
        · cases hfirst
          exact ⟨_, _, congrArg Prod.fst heq⟩
        · exact ih hmem
      · next stage' left _ heq =>
        rw [List.zip_cons_cons, List.zip_nil_right, List.mem_singleton] at hmem
        cases hmem
        exact ⟨_, _, congrArg Prod.fst heq⟩

/-- The latest event of a run that has ended is its end. -/
theorem endsRun_of_run {rig : Rig} {entry now : Host} {limit : Option Nat} {polls left : List Poll}
    {ending : Ending}
    (hrun : (Call.run limit).perform rig entry polls = (.ended ending now, left)) :
    ∃ s earlier, now.history = s :: earlier ∧ s.event.endsRun := by
  obtain ⟨before, hfinish⟩ := exists_finish_of_run hrun
  cases ending <;>
  · cases hfinish
    exact ⟨_, _, rfl, rfl⟩

/-- A session comes to the same with any two speakers, up to what is said to them. In a session the
speaker is not called again once a call has failed that was made when the timers were brought up to date,
and while no call has failed, the last one made when a run has ended, if any, is the end of a tone. -/
theorem speaker_is_harmless (rig : Rig) (speaker : Nat → Tone → Option String) (entry : Host)
    (polls : List Poll) (turns : List Turn) :
    (entry.session { rig with speaker } polls turns).map Stage.mute =
        (entry.session rig polls turns).map Stage.mute ∧
      (∀ stage ∈ entry.session rig polls turns, stage.Holds fun h =>
        ∃ events, h.history = events ++ entry.history ∧ StaysSilent events) ∧
      ∀ turn stage, (turn, stage) ∈ turns.zip (entry.session rig polls turns) →
        ∀ limit ending now, turn.call = .run limit → stage = .ended ending now →
          ∃ events, now.history = events ++ entry.history ∧
            (Flawless events → ∀ tone, lastTone events = some tone → tone = .ends) := by
  have hminds := (MindsSince.kept rig entry.history).session (.refl entry) polls turns
  refine ⟨?_, ?_, ?_⟩
  · rw [← session_mutely rig rig.speaker entry]
    exact (session_mutely { rig with speaker } rig.speaker entry polls turns).symm
  · intro stage hmem
    apply (hminds stage hmem).mono
    rintro h ⟨events, hhistory, hevents⟩
    exact ⟨events, hhistory, hevents.silent⟩
  · rintro turn stage hmem limit ending now hcall rfl
    obtain ⟨events, hhistory, hevents⟩ := hminds _ (List.of_mem_zip hmem).2
    obtain ⟨start, given, hperform⟩ := exists_perform_of_mem_session hmem
    rw [hcall] at hperform
    obtain ⟨s, earlier, hlatest, hends⟩ := endsRun_of_run (Prod.ext hperform rfl)
    refine ⟨events, hhistory, fun hflawless tone htone => ?_⟩
    cases tone with
    | ends => rfl
    | starts =>
        cases events with
        | nil => cases htone
        | cons e events =>
            obtain rfl : e = s := (List.cons.inj (hhistory.symm.trans hlatest)).1
            exact absurd htone (hevents.left e events rfl hends hflawless)

/-- A speaker that never works fails at the first tone, and that of the second run is not told to it. -/
example :
    ∀ stage ∈ (new (.holding [0x60, 0xFF, 0xF0, 0x18, 0x12, 0x04]) (.ofLayout .conventional) 60 0).session
        { Rig.steady with speaker := fun _ _ => some "no speaker" }
        (List.replicate 3 (.answered 0 (.events []))) [⟨0, .run (some 2)⟩, ⟨0, .run (some 1)⟩],
      stage.Holds fun h => FailedInService h.history ∧ h.calls = 1 := by
  decide +kernel

end Host

end Chip8Console
