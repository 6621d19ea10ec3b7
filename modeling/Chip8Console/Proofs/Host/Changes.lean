import Chip8Console.Host.Loop

/-!
# Changes of a host

What a host does falls into two kinds of small changes. Quiet ones, which are polls, steps, draws and
sleeps, leave the pacer and the tone alone; they record no call to the speaker, no service of the
timers and no end of a run. Spoken ones are the host's words with the speaker; they leave all but the
tone alone. What is left is bringing the timers up to date and ending a run, and both begin with a
spoken change.
-/

namespace Chip8Console

namespace Event

def endsRun : Event → Bool
  | noted (.stopped _) | noted (.aborted _ _) => true
  | _ => false

def services : Event → Bool
  | caughtUp _ _ => true
  | _ => false

def sounds : Event → Bool
  | sounded _ _ => true
  | _ => false

/-- Whether an event speaks of a call to the speaker. -/
def spoken : Event → Bool
  | sounded _ _ | noted (.muted _) | noted (.stillSounding _) => true
  | _ => false

def quiet (e : Event) : Bool := !e.endsRun && !e.services && !e.sounds

def plain (e : Event) : Bool := e.quiet && !e.spoken

theorem quiet_of_plain {e : Event} (h : e.plain) : e.quiet := ((Bool.and_eq_true _ _).mp h).1

theorem spoken_eq_false_of_plain {e : Event} (h : e.plain) : e.spoken = false :=
  (Bool.not_eq_true' _).mp ((Bool.and_eq_true _ _).mp h).2

theorem plain_of_mem_ofPressKey {m : Machine} {key : UInt8} {n : Notice}
    (h : n ∈ Notice.ofPressKey m key) : (noted n).plain := by
  unfold Notice.ofPressKey at h
  split at h
  · cases h
  · rw [List.mem_singleton.1 h]
    rfl

theorem plain_of_mem_ofKeystroke {kb : Keyboard} {stroke : Keystroke} {n : Notice}
    (h : n ∈ Notice.ofKeystroke kb stroke) : (noted n).plain := by
  unfold Notice.ofKeystroke at h
  split at h
  · cases h
  split at h
  · split at h
    · rw [List.mem_singleton.1 h]
      rfl
    · cases h
  · rw [List.mem_singleton.1 h]
    rfl
  · cases h

theorem plain_of_mem_ofStep {m : Machine} {n : Notice} (h : n ∈ Notice.ofStep m) :
    (noted n).plain := by
  unfold Notice.ofStep at h
  split at h
  · cases h
  split at h
  · cases h
  · rcases List.mem_cons.1 h with rfl | h
    · rfl
    · unfold Notice.ofExec at h
      split at h
      · rw [List.mem_singleton.1 h]
        rfl
      · cases h

theorem plain_of_mem_executions {m : Machine} {outcome : Outcome} {e : Event}
    (h : e ∈ Host.executions m outcome) : e.plain := by
  unfold Host.executions at h
  split at h
  · cases h
  split at h
  · rw [List.mem_singleton.1 h]
    rfl
  · rw [List.mem_singleton.1 h]
    rfl
  · cases h

end Event

/-- A history is another one with some events added, all of one kind. -/
def Adds (kind : Event → Bool) (old history : List Stamped) : Prop :=
  ∃ new, history = new ++ old ∧ ∀ s ∈ new, kind s.event

namespace Adds

variable {kind : Event → Bool} {old middle history : List Stamped}

theorem refl (kind : Event → Bool) (old : List Stamped) : Adds kind old old := ⟨[], rfl, by simp⟩

theorem mono {wider : Event → Bool} (h : Adds kind old history) (hkind : ∀ e, kind e → wider e) :
    Adds wider old history := by
  obtain ⟨new, rfl, hnew⟩ := h
  exact ⟨new, rfl, fun s hs => hkind _ (hnew s hs)⟩

theorem cons {s : Stamped} (hs : kind s.event) : Adds kind old (s :: old) :=
  ⟨[s], rfl, by simpa using hs⟩

theorem trans (first : Adds kind old middle) (second : Adds kind middle history) :
    Adds kind old history := by
  obtain ⟨older, rfl, holder⟩ := first
  obtain ⟨newer, rfl, hnewer⟩ := second
  refine ⟨newer ++ older, (List.append_assoc ..).symm, ?_⟩
  intro s hs
  rcases List.mem_append.1 hs with hs | hs
  · exact hnewer s hs
  · exact holder s hs

/-- What an added event keeps, all of them keep. -/
theorem induction {P : List Stamped → Prop} (h : Adds kind old history)
    (hcons : ∀ s earlier, kind s.event → P earlier → P (s :: earlier)) (hold : P old) :
    P history := by
  obtain ⟨new, rfl, hnew⟩ := h
  induction new with
  | nil => exact hold
  | cons s new ih =>
      apply hcons s _ (hnew s List.mem_cons_self)
      exact ih fun s hs => hnew s (List.mem_cons_of_mem _ hs)

theorem suffix (h : Adds kind old history) : old <:+ history := by
  obtain ⟨new, rfl, -⟩ := h
  exact List.suffix_append new old

end Adds

namespace Host

@[simp] theorem record_history (h : Host) (e : Event) :
    (h.record e).history = ⟨h.clock, e⟩ :: h.history := rfl

@[simp] theorem record_tone (h : Host) (e : Event) : (h.record e).tone = h.tone := rfl

@[simp] theorem record_machine (h : Host) (e : Event) : (h.record e).machine = h.machine := rfl

theorem recordAll_eq (h : Host) (es : List Event) :
    es.foldl record h = { h with history := (es.foldl record h).history } := by
  induction es generalizing h with
  | nil => rfl
  | cons e es ih => exact ih (h.record e)

theorem noteAll_eq (h : Host) (ns : List Notice) :
    h.noteAll ns = { h with history := (h.noteAll ns).history } := by
  induction ns generalizing h with
  | nil => rfl
  | cons n ns ih => exact ih (h.note n)

@[simp] theorem noteAll_machine (h : Host) (ns : List Notice) : (h.noteAll ns).machine = h.machine := by
  rw [noteAll_eq]

/-- The host when a poll has been answered and before it has heard what came. -/
def asked (h : Host) (cost : Nat) : Host :=
  ({ h with polls := h.polls + 1 }.elapse cost).record .polled

/-- What a poll brings to the host's ears. -/
def hearing (h : Host) (cost : Nat) (arrival : Arrival) : Host × Bool :=
  ((h.asked cost).receive arrival).1.hear ((h.asked cost).receive arrival).2

theorem poll_answered (h : Host) (cost : Nat) (arrival : Arrival) :
    h.poll (.answered cost arrival) =
      ((h.hearing cost arrival).1, if (h.hearing cost arrival).2 then .quit else .goOn) := by
  rw [poll]
  unfold hearing asked
  grind

/-- A property that is kept by the things that a poll does. -/
structure KeptByPoll (P : Host → Prop) : Prop where
  ask : ∀ {h : Host} (cost : Nat), P h → P (h.asked cost)
  keyboard : ∀ {h : Host} (keyboard : Keyboard), P h → P { h with keyboard }
  note : ∀ {h : Host} {n : Notice}, (Event.noted n).quiet → P h → P (h.note n)
  press : ∀ {h : Host} (key : UInt8), P h → P { h with machine := h.machine.pressKey key }
  release : ∀ {h : Host} (key : UInt8), P h → P { h with machine := h.machine.releaseKey key }

namespace KeptByPoll

variable {P : Host → Prop} {h : Host}

theorem noteAll (kept : KeptByPoll P) {ns : List Notice} (hns : ∀ n ∈ ns, (Event.noted n).quiet)
    (hh : P h) : P (h.noteAll ns) := by
  apply List.foldlRecOn ns Host.note hh
  intro next hnext n hn
  exact kept.note (hns n hn) hnext

theorem hear (kept : KeptByPoll P) (es : List KeyEvent) (hh : P h) : P (h.hear es).1 := by
  induction es generalizing h with
  | nil => exact hh
  | cons e es ih =>
      cases e with
      | quit => exact hh
      | down key =>
          have hnotices : ∀ n ∈ Notice.ofPressKey h.machine key, (Event.noted n).quiet := fun n hn =>
            Event.quiet_of_plain (Event.plain_of_mem_ofPressKey hn)
          exact ih (kept.press key (kept.noteAll hnotices hh))
      | up key => exact ih (kept.release key hh)

theorem receive (kept : KeptByPoll P) (arrival : Arrival) (hh : P h) : P (h.receive arrival).1 := by
  cases arrival with
  | events es => exact hh
  | strokes ks =>
      apply kept.noteAll _ (kept.keyboard _ hh)
      intro n hn
      obtain ⟨stroke, -, hn⟩ := List.mem_flatMap.1 hn
      exact Event.quiet_of_plain (Event.plain_of_mem_ofKeystroke hn)

theorem poll (kept : KeptByPoll P) (poll : Poll) (hh : P h) : P (h.poll poll).1 := by
  cases poll with
  | lost reason => exact hh
  | answered cost arrival =>
      rw [poll_answered]
      exact kept.hear _ (kept.receive arrival (kept.ask cost hh))

end KeptByPoll

/-! ## Quiet changes -/

theorem step_eq (h : Host) :
    h.step =
      ((executions h.machine h.machine.step.2).foldl record
        { h.noteAll (Notice.ofStep h.machine) with machine := h.machine.step.1 },
        h.machine.step.2) := rfl

/-- A change that the timers and the tone have no part in. -/
structure Quiet (h h' : Host) : Prop where
  pacer : h'.pacer = h.pacer
  clock : h.clock ≤ h'.clock
  timersAt : h'.timersAt = h.timersAt
  tone : h'.tone = h.tone
  speakerWorks : h'.speakerWorks = h.speakerWorks
  history : Adds Event.quiet h.history h'.history

namespace Quiet

variable {h h' h'' : Host}

theorem of_history_eq (pacer : h'.pacer = h.pacer) (clock : h.clock ≤ h'.clock)
    (timersAt : h'.timersAt = h.timersAt) (tone : h'.tone = h.tone)
    (works : h'.speakerWorks = h.speakerWorks) (history : h'.history = h.history) : h.Quiet h' :=
  ⟨pacer, clock, timersAt, tone, works, history ▸ .refl _ _⟩

theorem refl (h : Host) : h.Quiet h := of_history_eq rfl (Nat.le_refl _) rfl rfl rfl rfl

theorem trans (first : h.Quiet h') (second : h'.Quiet h'') : h.Quiet h'' :=
  ⟨second.pacer.trans first.pacer, Nat.le_trans first.clock second.clock,
    second.timersAt.trans first.timersAt, second.tone.trans first.tone,
    second.speakerWorks.trans first.speakerWorks, first.history.trans second.history⟩

theorem machine (h : Host) (m : Machine) : h.Quiet { h with machine := m } :=
  of_history_eq rfl (Nat.le_refl _) rfl rfl rfl rfl

theorem elapse (h : Host) (time : Nat) : h.Quiet (h.elapse time) :=
  of_history_eq rfl (Nat.le_add_right _ _) rfl rfl rfl rfl

theorem record (h : Host) {e : Event} (he : e.quiet) : h.Quiet (h.record e) :=
  ⟨rfl, Nat.le_refl _, rfl, rfl, rfl, .cons he⟩

theorem recordAll (h : Host) {es : List Event} (hes : ∀ e ∈ es, e.quiet) :
    h.Quiet (es.foldl Host.record h) := by
  apply List.foldlRecOn es Host.record (refl h)
  intro next hnext e he
  exact hnext.trans (record next (hes e he))

theorem keptByPoll (h : Host) : KeptByPoll h.Quiet where
  ask {asked} cost hh := by
    have hcounted : asked.Quiet ({ asked with polls := asked.polls + 1 }.elapse cost) :=
      of_history_eq rfl (Nat.le_add_right _ _) rfl rfl rfl rfl
    exact (hh.trans hcounted).trans (record _ rfl)
  keyboard _ hh := hh.trans (of_history_eq rfl (Nat.le_refl _) rfl rfl rfl rfl)
  note hquiet hh := hh.trans (record _ hquiet)
  press _ hh := hh.trans (machine _ _)
  release _ hh := hh.trans (machine _ _)

theorem poll (h : Host) (poll : Poll) : h.Quiet (h.poll poll).1 := (keptByPoll h).poll poll (refl h)

theorem draw (rig : Rig) (h : Host) : h.Quiet (h.draw rig).1 := by
  unfold Host.draw
  split
  · exact refl h
  · next cost _ =>
    exact (record h (e := .drew h.machine.screen) rfl).trans
      (of_history_eq rfl (Nat.le_add_right _ _) rfl rfl rfl rfl)

theorem present (rig : Rig) (h : Host) : h.Quiet (h.present rig).1 :=
  (machine h h.machine.noted).trans (draw rig _)

theorem redraw (rig : Rig) (h : Host) : h.Quiet (h.redraw rig).1 := by
  unfold Host.redraw
  split
  · exact present rig h
  · exact refl h

theorem noteStep (h : Host) : h.Quiet (h.noteAll (Notice.ofStep h.machine)) :=
  (keptByPoll h).noteAll (fun _ hn => Event.quiet_of_plain (Event.plain_of_mem_ofStep hn)) (refl h)

theorem step (h : Host) : h.Quiet h.step.1 :=
  ((noteStep h).trans (machine _ _)).trans
    (recordAll _ fun _ he => Event.quiet_of_plain (Event.plain_of_mem_executions he))

theorem of_step {outcome : Outcome} (hstep : h.step = (h', outcome)) : h.Quiet h' := by
  have hquiet := step h
  rw [hstep] at hquiet
  exact hquiet

theorem of_present {rig : Rig} {failure : Option String} (hpresent : h.present rig = (h', failure)) :
    h.Quiet h' := by
  have hquiet := present rig h
  rw [hpresent] at hquiet
  exact hquiet

theorem of_redraw {rig : Rig} {failure : Option String} (hredraw : h.redraw rig = (h', failure)) :
    h.Quiet h' := by
  have hquiet := redraw rig h
  rw [hredraw] at hquiet
  exact hquiet

end Quiet

theorem stale_of_present {rig : Rig} {h next : Host} (hpresent : h.present rig = (next, none)) :
    next.machine.stale = false := by
  unfold present draw at hpresent
  split at hpresent
  · cases hpresent
  · cases hpresent
    rfl

/-- Once the screen has been redrawn it is not stale. -/
theorem stale_of_redraw {rig : Rig} {h next : Host} (hredraw : h.redraw rig = (next, none)) :
    next.machine.stale = false := by
  unfold redraw at hredraw
  split at hredraw
  · exact stale_of_present hredraw
  · next hstale =>
    cases hredraw
    exact Bool.eq_false_iff.2 hstale

/-! ## Words with the speaker -/

/-- A change that only the speaker has a part in. -/
structure Spoken (h h' : Host) : Prop where
  machine : h'.machine = h.machine
  keyboard : h'.keyboard = h.keyboard
  pacer : h'.pacer = h.pacer
  clock : h'.clock = h.clock
  timersAt : h'.timersAt = h.timersAt
  frames : h'.frames = h.frames
  polls : h'.polls = h.polls
  history : Adds Event.spoken h.history h'.history

namespace Spoken

variable {h h' h'' : Host}

theorem refl (h : Host) : h.Spoken h :=
  ⟨rfl, rfl, rfl, rfl, rfl, rfl, rfl, .refl _ _⟩

theorem trans (first : h.Spoken h') (second : h'.Spoken h'') : h.Spoken h'' :=
  ⟨second.machine.trans first.machine, second.keyboard.trans first.keyboard,
    second.pacer.trans first.pacer, second.clock.trans first.clock,
    second.timersAt.trans first.timersAt, second.frames.trans first.frames,
    second.polls.trans first.polls, first.history.trans second.history⟩

theorem tone (h : Host) (tone : EdgeDetector) : h.Spoken { h with tone } :=
  ⟨rfl, rfl, rfl, rfl, rfl, rfl, rfl, .refl _ _⟩

theorem mute (h : Host) : h.Spoken { h with speakerWorks := false } :=
  ⟨rfl, rfl, rfl, rfl, rfl, rfl, rfl, .refl _ _⟩

theorem record (h : Host) {e : Event} (he : e.spoken) : h.Spoken (h.record e) :=
  ⟨rfl, rfl, rfl, rfl, rfl, rfl, rfl, .cons he⟩

theorem of_sound {rig : Rig} {tone : Tone} {failure : Option String}
    (hsound : h.sound rig tone = (h', failure)) : h.Spoken h' := by
  cases hsound
  exact ⟨rfl, rfl, rfl, rfl, rfl, rfl, rfl, .cons rfl⟩

theorem followTone (rig : Rig) (h : Host) : h.Spoken (h.followTone rig) := by
  unfold Host.followTone
  split
  · exact tone h _
  · split
    · split
      · next hsound => exact (tone h _).trans (of_sound hsound)
      · next hsound =>
        exact (((tone h _).trans (of_sound hsound)).trans (mute _)).trans (record _ rfl)
    · exact tone h _

theorem silence (rig : Rig) (h : Host) : h.Spoken (h.silence rig) := by
  unfold Host.silence
  split
  · split
    · next hsound => exact of_sound hsound
    · next hsound => exact (of_sound hsound).trans (record _ rfl)
  · exact refl h

end Spoken

/-! ## Beginning and ending a run -/

/-- The host of a run that begins, before it shows the screen. -/
def opened (rig : Rig) (h : Host) : Host :=
  { h.note (.starting h.machine.pc rig.cycle) with timersAt := h.clock }

theorem exists_finish (rig : Rig) (h : Host) (ending : Ending) :
    ∃ next, h.finish rig ending = .ended ending next := by
  cases ending <;> exact ⟨_, rfl⟩

/-- A run that ends falls silent and takes leave. -/
theorem exists_note_of_finish {rig : Rig} {h next : Host} {ending : Ending}
    (hended : h.finish rig ending = .ended ending next) : ∃ n, next = (h.silence rig).note n := by
  cases ending <;>
  · cases hended
    exact ⟨_, rfl⟩

/-! ## Bringing the timers up to date -/

/-- The host with the timers brought up to date, before it follows the tone. -/
def ticked (h : Host) (pacer : Pacer) (timers : Timers) : Host :=
  { h with pacer, timersAt := h.clock, machine := { h.machine with timers } }

theorem catchUp_eq_some {rig : Rig} {h next : Host} (hcaught : h.catchUp rig = some next) :
    ∃ pacer timers ticks,
      h.pacer.elapse (h.clock - h.timersAt) h.machine.timers = some (pacer, timers, ticks) ∧
        next = ((h.ticked pacer timers).followTone rig).record (.caughtUp ticks timers) := by
  obtain ⟨⟨pacer, timers, ticks⟩, helapse, rfl⟩ := Option.map_eq_some_iff.1 hcaught
  exact ⟨pacer, timers, ticks, helapse, rfl⟩

end Host

end Chip8Console
