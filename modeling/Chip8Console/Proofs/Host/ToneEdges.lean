import Chip8Console.Proofs.Host.Session
import Chip8Console.Proofs.Machine.Action

/-!
# The speaker follows the sound timer

Read from a history, the latest event first: the calls to the speaker are starts and ends in turn, a
start first, and whenever the timers have been brought up to date the tone is on exactly if the sound
timer is running. `Faithful` says so.

Not every session is. A run that ends while the sound timer is running ends the tone, yet the edge
detector goes on taking it for on. If the host is then called again, the tone does not start again,
and the next end of the tone is told twice. `TakenUp` says of a history that this has come about: the
timers were brought up to date, or a run ended, after a run that had ended with the sound timer
running. With a speaker that works, a history is faithful exactly if it has not.
-/

namespace Chip8Console

def lastTone : List Stamped → Option Tone
  | [] => none
  | ⟨_, .sounded tone _⟩ :: _ => some tone
  | _ :: earlier => lastTone earlier

/-- What an event of a history asks of those before it. -/
def Event.Fits (earlier : List Stamped) : Event → Prop
  | sounded tone _ => tone = .starts ↔ lastTone earlier ≠ some .starts
  | caughtUp _ timers => lastTone earlier = some .starts ↔ timers.sounding
  | _ => True

def Faithful : List Stamped → Prop
  | [] => True
  | s :: earlier => s.event.Fits earlier ∧ Faithful earlier

def soundRuns : List Stamped → Bool
  | [] => false
  | ⟨_, .caughtUp _ timers⟩ :: _ => timers.sounding
  | _ :: earlier => soundRuns earlier

/-- Whether a run has ended while the sound timer was running. -/
def CutShort : List Stamped → Prop
  | [] => False
  | s :: earlier => (s.event.endsRun ∧ soundRuns earlier) ∨ CutShort earlier

/-- Whether, after such a run, the timers were brought up to date or another run has ended. -/
def TakenUp : List Stamped → Prop
  | [] => False
  | s :: earlier => ((s.event.services ∨ s.event.endsRun) ∧ CutShort earlier) ∨ TakenUp earlier

instance (earlier : List Stamped) : (e : Event) → Decidable (e.Fits earlier)
  | .sounded tone _ =>
    inferInstanceAs (Decidable (tone = .starts ↔ lastTone earlier ≠ some .starts))
  | .caughtUp _ timers =>
    inferInstanceAs (Decidable (lastTone earlier = some .starts ↔ timers.sounding = true))
  | .polled | .executed _ _ | .drew _ | .noted _ => .isTrue trivial

instance decidableFaithful : DecidablePred Faithful
  | [] => .isTrue trivial
  | s :: earlier =>
    have := decidableFaithful earlier
    inferInstanceAs (Decidable (s.event.Fits earlier ∧ Faithful earlier))

theorem Event.calm_of_endsRun {e : Event} (h : e.endsRun) :
    e.sounds = false ∧ e.services = false := by
  cases e with
  | noted n => exact ⟨rfl, rfl⟩
  | _ => cases h

/-! ### Histories one event longer -/

section Cons

variable {s : Stamped} {earlier : List Stamped}

theorem lastTone_cons_of_not_sounds (h : s.event.sounds = false) :
    lastTone (s :: earlier) = lastTone earlier := by
  obtain ⟨time, e⟩ := s
  cases e with
  | sounded tone failure => cases h
  | _ => rfl

theorem soundRuns_cons_of_not_services (h : s.event.services = false) :
    soundRuns (s :: earlier) = soundRuns earlier := by
  obtain ⟨time, e⟩ := s
  cases e with
  | caughtUp ticks timers => cases h
  | _ => rfl

theorem cutShort_cons_of_not_endsRun (h : s.event.endsRun = false) :
    CutShort (s :: earlier) ↔ CutShort earlier := by
  simp [CutShort, h]

theorem takenUp_cons_of_calm (hservices : s.event.services = false) (hends : s.event.endsRun = false) :
    TakenUp (s :: earlier) ↔ TakenUp earlier := by
  simp [TakenUp, hservices, hends]

theorem faithful_cons_of_calm (hsounds : s.event.sounds = false)
    (hservices : s.event.services = false) : Faithful (s :: earlier) ↔ Faithful earlier := by
  obtain ⟨time, e⟩ := s
  cases e with
  | sounded tone failure => cases hsounds
  | caughtUp ticks timers => cases hservices
  | _ => simp [Faithful, Event.Fits]

theorem TakenUp.cutShort {history : List Stamped} (h : TakenUp history) : CutShort history := by
  induction history with
  | nil => exact h
  | cons s earlier ih =>
      rcases h with ⟨-, hcut⟩ | htaken
      · exact .inr hcut
      · exact .inr (ih htaken)

end Cons

/-! ### Speaker and edge detector -/

/-- How a host's edge detector and speaker stand to each other. -/
inductive Footing (history : List Stamped) (on : Bool) : Prop where
  /-- The speaker does what the detector says. -/
  | inStep (hfaithful : Faithful history) (hcut : ¬ CutShort history)
      (hlast : lastTone history = some .starts ↔ on)
  /-- The speaker has been silenced and the detector does not know. -/
  | silenced (hfaithful : Faithful history) (hcut : CutShort history) (htaken : ¬ TakenUp history)
      (hlast : lastTone history = some .ends) (hon : on)
  | lost (hfaithful : ¬ Faithful history) (htaken : TakenUp history)

theorem Footing.faithful_iff {history : List Stamped} {on : Bool} (h : Footing history on) :
    Faithful history ↔ ¬ TakenUp history := by
  cases h with
  | inStep hfaithful hcut hlast => simp [hfaithful, mt TakenUp.cutShort hcut]
  | silenced hfaithful hcut htaken hlast hon => simp [hfaithful, htaken]
  | lost hfaithful htaken => simp [hfaithful, htaken]

theorem Footing.cons_quiet {history : List Stamped} {on : Bool} {s : Stamped}
    (h : Footing history on) (hs : s.event.quiet) : Footing (s :: history) on := by
  simp only [Event.quiet, Bool.and_eq_true, Bool.not_eq_true'] at hs
  obtain ⟨⟨hends, hservices⟩, hsounds⟩ := hs
  have hfaithful_iff : Faithful (s :: history) ↔ Faithful history :=
    faithful_cons_of_calm hsounds hservices
  have hcut_iff : CutShort (s :: history) ↔ CutShort history := cutShort_cons_of_not_endsRun hends
  have htaken_iff : TakenUp (s :: history) ↔ TakenUp history := takenUp_cons_of_calm hservices hends
  have hlast_eq : lastTone (s :: history) = lastTone history := lastTone_cons_of_not_sounds hsounds
  cases h with
  | inStep hfaithful hcut hlast =>
      exact .inStep (hfaithful_iff.2 hfaithful) (mt hcut_iff.1 hcut) (by rw [hlast_eq, hlast])
  | silenced hfaithful hcut htaken hlast hon =>
      exact .silenced (hfaithful_iff.2 hfaithful) (hcut_iff.2 hcut) (mt htaken_iff.1 htaken)
        (hlast_eq.trans hlast) hon
  | lost hfaithful htaken => exact .lost (mt hfaithful_iff.1 hfaithful) (htaken_iff.2 htaken)

/-- The timers are brought up to date and the detector sees no edge. -/
theorem Footing.level {history : List Stamped} {timers : Timers} (h : Footing history timers.sounding)
    (time : Nat) (ticks : UInt32) :
    Footing (⟨time, .caughtUp ticks timers⟩ :: history) timers.sounding := by
  cases h with
  | inStep hfaithful hcut hlast =>
      apply Footing.inStep
      · exact ⟨hlast, hfaithful⟩
      · simpa [CutShort, Event.endsRun] using hcut
      · exact hlast
  | silenced hfaithful hcut htaken hlast hon =>
      have hmissed : ¬ Event.Fits history (.caughtUp ticks timers) := by
        simp [Event.Fits, hlast, hon]
      exact .lost (fun h => hmissed h.1) (.inl ⟨.inl rfl, hcut⟩)
  | lost hfaithful htaken => exact .lost (fun h => hfaithful h.2) (.inr htaken)

/-- The timers are brought up to date and the speaker is told of an edge. -/
theorem Footing.edge {history : List Stamped} {on : Bool} (h : Footing history on) {tone : Tone}
    {timers : Timers} (hedge : on ≠ timers.sounding) (htone : tone = .starts ↔ timers.sounding)
    (time : Nat) (ticks : UInt32) (failure : Option String) :
    Footing (⟨time, .caughtUp ticks timers⟩ :: ⟨time, .sounded tone failure⟩ :: history)
      timers.sounding := by
  cases h with
  | inStep hfaithful hcut hlast =>
      have hturn : tone = .starts ↔ lastTone history ≠ some .starts := by
        rw [htone, ne_eq, hlast]
        cases on <;> simp_all
      have hlevel : lastTone (⟨time, .sounded tone failure⟩ :: history) = some .starts ↔
          timers.sounding := by
        simpa [lastTone] using htone
      apply Footing.inStep
      · exact ⟨hlevel, hturn, hfaithful⟩
      · simpa [CutShort, Event.endsRun] using hcut
      · exact hlevel
  | silenced hfaithful hcut htaken hlast hon =>
      have hends : tone ≠ .starts := by
        rw [ne_eq, htone]
        simp_all
      have hrepeated : ¬ Event.Fits history (.sounded tone failure) := by
        simp [Event.Fits, hlast, hends]
      exact .lost (fun h => hrepeated h.2.1) (.inl ⟨.inl rfl, .inr hcut⟩)
  | lost hfaithful htaken => exact .lost (fun h => hfaithful h.2.2) (.inr (.inr htaken))

/-- A run ends with the tone off. -/
theorem Footing.endsOff {history : List Stamped} (h : Footing history false)
    (hruns : soundRuns history = false) {s : Stamped} (hs : s.event.endsRun) :
    Footing (s :: history) false := by
  obtain ⟨hsounds, hservices⟩ := Event.calm_of_endsRun hs
  cases h with
  | inStep hfaithful hcut hlast =>
      apply Footing.inStep
      · exact (faithful_cons_of_calm hsounds hservices).2 hfaithful
      · simpa [CutShort, hruns] using hcut
      · rw [lastTone_cons_of_not_sounds hsounds]
        exact hlast
  | silenced hfaithful hcut htaken hlast hon => cases hon
  | lost hfaithful htaken => exact .lost (fun h => hfaithful h.2) (.inr htaken)

/-- A run ends with the tone on, which ends too. -/
theorem Footing.endsOn {history : List Stamped} (h : Footing history true)
    (hruns : soundRuns history) {s : Stamped} (hs : s.event.endsRun) (time : Nat)
    (failure : Option String) :
    Footing (s :: ⟨time, .sounded .ends failure⟩ :: history) true := by
  obtain ⟨hsounds, hservices⟩ := Event.calm_of_endsRun hs
  cases h with
  | inStep hfaithful hcut hlast =>
      apply Footing.silenced
      · rw [faithful_cons_of_calm hsounds hservices]
        exact ⟨by simp [Event.Fits, hlast], hfaithful⟩
      · exact .inl ⟨hs, hruns⟩
      · simp [TakenUp, CutShort, Event.endsRun, Event.services, hcut, mt TakenUp.cutShort hcut]
      · rw [lastTone_cons_of_not_sounds hsounds]
        rfl
      · rfl
  | silenced hfaithful hcut htaken hlast hon =>
      have hrepeated : ¬ Event.Fits history (.sounded .ends failure) := by
        simp [Event.Fits, hlast]
      exact .lost (fun h => hrepeated h.2.1) (.inl ⟨.inr hs, .inr hcut⟩)
  | lost hfaithful htaken => exact .lost (fun h => hfaithful h.2.2) (.inr (.inr htaken))

/-! ### The tone of a host -/

namespace EdgeDetector

theorem observe_of_level {t : EdgeDetector} {timers : Timers} (h : t.on = timers.sounding) :
    t.observe timers = (t, none) := by
  unfold observe
  split <;> simp_all

theorem observe_of_edge {t : EdgeDetector} {timers : Timers} (h : t.on ≠ timers.sounding) :
    ∃ tone : Tone, (tone = .starts ↔ timers.sounding) ∧
      t.observe timers = (⟨timers.sounding⟩, some tone) := by
  cases hon : t.on with
  | false =>
      have hsounding : timers.sounding = true := by simpa [hon] using h
      exact ⟨.starts, by simp [hsounding], by simp [observe, hon, hsounding]⟩
  | true =>
      have hsounding : timers.sounding = false := by simpa [hon] using h
      exact ⟨.ends, by simp [hsounding], by simp [observe, hon, hsounding]⟩

end EdgeDetector

namespace Host

theorem followTone_of_level (rig : Rig) {h : Host} (hlevel : h.tone.on = h.machine.timers.sounding) :
    h.followTone rig = h := by
  simp only [followTone, EdgeDetector.observe_of_level hlevel]

theorem followTone_of_call {rig : Rig} {h : Host} {detector : EdgeDetector} {tone : Tone}
    (hworks : h.speakerWorks) (hedge : h.tone.observe h.machine.timers = (detector, some tone))
    (hspeaker : rig.speaker h.calls tone = none) :
    h.followTone rig =
      { h with tone := detector, calls := h.calls + 1 }.record (.sounded tone none) := by
  simp only [followTone, hedge, hworks, sound, hspeaker, if_true]

theorem followTone_of_edge {rig : Rig} (hspeaker : ∀ n tone, rig.speaker n tone = none) {h : Host}
    (hworks : h.speakerWorks) (hedge : h.tone.on ≠ h.machine.timers.sounding) :
    ∃ tone : Tone, (tone = .starts ↔ h.machine.timers.sounding) ∧
      h.followTone rig =
        { h with tone := ⟨h.machine.timers.sounding⟩, calls := h.calls + 1 }.record
          (.sounded tone none) := by
  obtain ⟨tone, htone, hobserve⟩ := EdgeDetector.observe_of_edge hedge
  exact ⟨tone, htone, followTone_of_call hworks hobserve (hspeaker _ _)⟩

theorem silence_of_off (rig : Rig) {h : Host} (hoff : h.tone.on = false) : h.silence rig = h := by
  simp [silence, hoff]

theorem silence_of_call {rig : Rig} {h : Host} (hcalls : h.tone.on && h.speakerWorks)
    (hspeaker : rig.speaker h.calls .ends = none) :
    h.silence rig = { h with calls := h.calls + 1 }.record (.sounded .ends none) := by
  simp only [silence, hcalls, sound, hspeaker, if_true]

theorem silence_of_on {rig : Rig} (hspeaker : ∀ n tone, rig.speaker n tone = none) {h : Host}
    (hworks : h.speakerWorks) (hon : h.tone.on) :
    h.silence rig = { h with calls := h.calls + 1 }.record (.sounded .ends none) :=
  silence_of_call (by simp [hon, hworks]) (hspeaker _ _)

/-- What the tone of a host obeys while its speaker works. -/
structure MindsTone (h : Host) : Prop where
  works : h.speakerWorks
  level : h.tone.on = soundRuns h.history
  footing : Footing h.history h.tone.on

namespace MindsTone

variable {rig : Rig} {h next : Host}

theorem quiet (hh : h.MindsTone) (hquiet : h.Quiet next) : next.MindsTone := by
  have hcons (s : Stamped) (earlier : List Stamped) (hs : s.event.quiet)
      (hearlier : h.tone.on = soundRuns earlier ∧ Footing earlier h.tone.on) :
      h.tone.on = soundRuns (s :: earlier) ∧ Footing (s :: earlier) h.tone.on := by
    obtain ⟨hlevel, hfooting⟩ := hearlier
    refine ⟨?_, hfooting.cons_quiet hs⟩
    simp only [Event.quiet, Bool.and_eq_true, Bool.not_eq_true'] at hs
    rw [soundRuns_cons_of_not_services hs.1.2]
    exact hlevel
  obtain ⟨hlevel, hfooting⟩ := hquiet.history.induction hcons ⟨hh.level, hh.footing⟩
  rw [← hquiet.tone] at hlevel hfooting
  exact ⟨hquiet.speakerWorks.trans hh.works, hlevel, hfooting⟩

theorem catchUp (hspeaker : ∀ n tone, rig.speaker n tone = none) (hh : h.MindsTone)
    (hcaught : h.catchUp rig = some next) : next.MindsTone := by
  obtain ⟨pacer, timers, ticks, -, rfl⟩ := catchUp_eq_some hcaught
  have hworks : (h.ticked pacer timers).speakerWorks := hh.works
  have hfooting : Footing (h.ticked pacer timers).history (h.ticked pacer timers).tone.on :=
    hh.footing
  by_cases hlevel : (h.ticked pacer timers).tone.on = timers.sounding
  · rw [followTone_of_level rig hlevel]
    refine ⟨hworks, hlevel, ?_⟩
    rw [record_tone, record_history, hlevel]
    rw [hlevel] at hfooting
    exact hfooting.level h.clock ticks
  · obtain ⟨tone, htone, hfollowed⟩ := followTone_of_edge hspeaker hworks hlevel
    rw [hfollowed]
    exact ⟨hworks, rfl, hfooting.edge hlevel htone h.clock ticks none⟩

theorem finish (hspeaker : ∀ n tone, rig.speaker n tone = none) (hh : h.MindsTone)
    (ending : Ending) : (h.finish rig ending).Holds MindsTone := by
  have hended (e : Event) (he : e.endsRun) : ((h.silence rig).record e).MindsTone := by
    have hservices := (Event.calm_of_endsRun he).2
    have hlevel := hh.level
    have hfooting := hh.footing
    cases hon : h.tone.on with
    | false =>
        rw [silence_of_off rig hon]
        rw [hon] at hlevel hfooting
        refine ⟨hh.works, ?_, ?_⟩
        · rw [record_tone, record_history, soundRuns_cons_of_not_services hservices]
          exact hh.level
        · rw [record_tone, record_history, hon]
          exact hfooting.endsOff hlevel.symm he
    | true =>
        rw [silence_of_on hspeaker hh.works hon]
        rw [hon] at hlevel hfooting
        refine ⟨hh.works, ?_, ?_⟩
        · rw [record_tone, record_history, soundRuns_cons_of_not_services hservices, record_history,
            soundRuns_cons_of_not_services rfl]
          exact hh.level
        · rw [record_tone, record_tone, record_history, record_history, hon]
          exact hfooting.endsOn hlevel.symm he h.clock none
  cases ending with
  | failed e => exact hended _ rfl
  | _ => exact hended _ rfl

theorem kept (hspeaker : ∀ n tone, rig.speaker n tone = none) : Kept rig MindsTone where
  quiet hquiet hh := hh.quiet hquiet
  recount hh := ⟨hh.works, hh.level, hh.footing⟩
  catchUp hcaught hh := hh.catchUp hspeaker hcaught
  finish ending hh := hh.finish hspeaker ending

end MindsTone

/-- In a session on a new host whose speaker works, the tone is faithful to the sound timer until the
session takes up again after a run that was cut short, and from then on it is not. -/
theorem faithful_iff_not_takenUp {rig : Rig} (hspeaker : ∀ n tone, rig.speaker n tone = none)
    (machine : Machine) (keyboard : Keyboard) (timerRate : UInt32) (time : Nat) (polls : List Poll)
    (turns : List Turn) :
    ∀ stage ∈ (new machine keyboard timerRate time).session rig polls turns,
      stage.Holds fun h => Faithful h.history ↔ ¬ TakenUp h.history := by
  have hnew : (new machine keyboard timerRate time).MindsTone :=
    ⟨rfl, rfl, .inStep trivial not_false (by simp [lastTone, new, ofMachine])⟩
  intro stage hmem
  apply ((MindsTone.kept hspeaker).session hnew polls turns stage hmem).mono
  intro h hh
  exact hh.footing.faithful_iff

/-- A host whose program sets the sound timer and then goes round in a loop. -/
def droning : Host :=
  new (.holding [0x60, 0xFF, 0xF0, 0x18, 0x12, 0x04]) (.ofLayout .conventional) 60 0

def brokenDrone : List Stage :=
  droning.session .steady (List.replicate 3 (.answered 0 (.events [])))
    [⟨0, .run (some 2)⟩, ⟨0, .run (some 1)⟩]

theorem brokenDrone_faithful_iff :
    (∀ n tone, Rig.steady.speaker n tone = none) ∧
      ∀ stage ∈ brokenDrone, stage.Holds fun h => Faithful h.history ↔ ¬ TakenUp h.history := by
  have hspeaker : ∀ n tone, Rig.steady.speaker n tone = none := fun _ _ => rfl
  exact ⟨hspeaker, faithful_iff_not_takenUp hspeaker _ _ 60 0 _ _⟩

theorem brokenDrone_not_faithful :
    ¬ ∀ stage ∈ brokenDrone, stage.Holds fun h => Faithful h.history := by
  decide +kernel

end Host

end Chip8Console
