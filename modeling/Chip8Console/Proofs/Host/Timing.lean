import Chip8Console.Proofs.Host.Lockstep
import Chip8Console.Proofs.Host.Service
import Chip8Console.Proofs.Machine.Action
import Chip8Console.Proofs.Machine.Untimed

/-!
# Time and what is executed

Two hosts that differ only in what concerns time do the same: at any rates, costs and clocks, they
poll, execute and draw the same, as long as no instruction reads the delay timer. `Alike` relates the
hosts of two such runs. It asks nothing of their clocks, pacers and speakers, but that the timers of
both come to rest or those of neither do.

Alike hosts go in lockstep: each part of a call takes them to alike hosts, and so does a step unless it
reads the delay timer. Such a step stays in the history, so a run whose history has none was alike
throughout.
-/

namespace Chip8Console

namespace Event

/-- Whether an event is of the kind that time has no part in. -/
def timeless : Event → Bool
  | polled | executed _ _ | drew _ => true
  | _ => false

def readsDelay : Event → Bool
  | executed _ instruction => instruction.readsDelay
  | _ => false

end Event

/-- The polls, instructions and screens of a history. -/
def outline (history : List Stamped) : List Event :=
  (history.map (·.event)).filter Event.timeless

theorem outline_cons_of_not_timeless {s : Stamped} {earlier : List Stamped}
    (h : s.event.timeless = false) : outline (s :: earlier) = outline earlier := by
  simp [outline, h]

theorem Adds.outline_eq {kind : Event → Bool} {old history : List Stamped}
    (h : Adds kind old history) (hkind : ∀ e, kind e → e.timeless = false) :
    outline history = outline old := by
  have hcons (s : Stamped) (earlier : List Stamped) (hs : kind s.event)
      (hearlier : outline earlier = outline old) : outline (s :: earlier) = outline old := by
    rw [outline_cons_of_not_timeless (hkind _ hs)]
    exact hearlier
  exact h.induction hcons rfl

/-- Polls that bring the same events, whatever they cost. -/
inductive Poll.Same : Poll → Poll → Prop where
  | answered (cost cost' : Nat) (es : List KeyEvent) :
      Same (.answered cost (.events es)) (.answered cost' (.events es))
  | lost (reason : String) : Same (.lost reason) (.lost reason)

/-- The same draws fail, whatever they cost. -/
def Rig.SameDraws (rig rig' : Rig) : Prop :=
  ∀ n reason, rig.draw n = .error reason ↔ rig'.draw n = .error reason

namespace Host

/-- Two hosts that differ only in what concerns time. -/
structure Alike (h k : Host) : Prop where
  machine : h.machine.still = k.machine.still
  frames : h.frames = k.frames
  polls : h.polls = k.polls
  outline : outline h.history = outline k.history
  rests : h.pacer.period = 0 ↔ k.pacer.period = 0

namespace Alike

variable {h k l : Host}

theorem symm (hk : h.Alike k) : k.Alike h :=
  ⟨hk.machine.symm, hk.frames.symm, hk.polls.symm, hk.outline.symm, hk.rests.symm⟩

theorem trans (hk : h.Alike k) (kl : k.Alike l) : h.Alike l :=
  ⟨hk.machine.trans kl.machine, hk.frames.trans kl.frames, hk.polls.trans kl.polls,
    hk.outline.trans kl.outline, hk.rests.trans kl.rests⟩

/-! ### Changes that only concern time -/

theorem elapse (hk : h.Alike k) (time time' : Nat) : (h.elapse time).Alike (k.elapse time') :=
  ⟨hk.machine, hk.frames, hk.polls, hk.outline, hk.rests⟩

theorem record (h : Host) {e : Event} (he : e.timeless = false) : (h.record e).Alike h :=
  ⟨rfl, rfl, rfl, outline_cons_of_not_timeless he, Iff.rfl⟩

theorem note (hk : h.Alike k) (n n' : Notice) : (h.note n).Alike (k.note n') :=
  ((record h rfl).trans hk).trans (record k rfl).symm

theorem recount (hk : h.Alike k) :
    Alike { h with timersAt := h.clock } { k with timersAt := k.clock } :=
  ⟨hk.machine, hk.frames, hk.polls, hk.outline, hk.rests⟩

theorem of_spoken (hspoken : h.Spoken k) : k.Alike h := by
  refine ⟨congrArg Machine.still hspoken.machine, hspoken.frames, hspoken.polls, ?_, ?_⟩
  · apply hspoken.history.outline_eq
    intro e he
    cases e with
    | sounded tone failure => rfl
    | noted n => rfl
    | _ => cases he
  · rw [hspoken.pacer]

/-! ### Changes that both make -/

theorem recordBoth (hk : h.Alike k) (e : Event) : (h.record e).Alike (k.record e) := by
  refine ⟨hk.machine, hk.frames, hk.polls, ?_, hk.rests⟩
  have houtline := hk.outline
  unfold Chip8Console.outline at houtline ⊢
  simp only [record_history, List.map_cons, List.filter_cons, houtline]

theorem recordAll (hk : h.Alike k) (es : List Event) :
    (es.foldl Host.record h).Alike (es.foldl Host.record k) := by
  induction es generalizing h k with
  | nil => exact hk
  | cons e es ih => exact ih (hk.recordBoth e)

theorem withMachines (hk : h.Alike k) {m n : Machine} (hmn : m.still = n.still) :
    Alike { h with machine := m } { k with machine := n } :=
  ⟨hmn, hk.frames, hk.polls, hk.outline, hk.rests⟩

/-- What hosts take note of is not in the outline. -/
theorem hearTogether : HearTogether Alike where
  noteLeft _ hk := (record _ rfl).trans hk
  noteRight _ hk := hk.trans (record _ rfl).symm
  press key hk := hk.withMachines (Machine.pressKey_congr hk.machine key)
  release key hk := hk.withMachines (Machine.releaseKey_congr hk.machine key)

theorem poll (hk : h.Alike k) {p q : Poll} (hpq : p.Same q) :
    (h.poll p).1.Alike (k.poll q).1 ∧ (h.poll p).2 = (k.poll q).2 := by
  cases hpq with
  | lost reason => exact ⟨hk, rfl⟩
  | answered cost cost' es =>
      have hpolled : Alike ({ h with polls := h.polls + 1 }.elapse cost)
          ({ k with polls := k.polls + 1 }.elapse cost') :=
        ⟨hk.machine, hk.frames, congrArg (· + 1) hk.polls, hk.outline, hk.rests⟩
      have hasked : (h.asked cost).Alike (k.asked cost') := hpolled.recordBoth .polled
      obtain ⟨hheard, hquit⟩ := hearTogether.events hasked es
      rw [poll_answered, poll_answered]
      refine ⟨hheard, ?_⟩
      show (if ((h.asked cost).hear es).2 then Heard.quit else .goOn) =
        if ((k.asked cost').hear es).2 then .quit else .goOn
      rw [hquit]

theorem draw {rig rig' : Rig} (hrig : rig.SameDraws rig') (hk : h.Alike k) :
    (h.draw rig).1.Alike (k.draw rig').1 ∧ (h.draw rig).2 = (k.draw rig').2 := by
  have hscreen := Machine.screen_eq_of_still hk.machine
  rw [Host.draw, Host.draw]
  cases hdraw : rig.draw h.frames with
  | error reason =>
      have hdraw' : rig'.draw k.frames = .error reason := hk.frames ▸ (hrig h.frames reason).1 hdraw
      rw [hdraw']
      exact ⟨hk, rfl⟩
  | ok cost =>
      cases hdraw' : rig'.draw k.frames with
      | error reason =>
          rw [← hk.frames] at hdraw'
          exact absurd ((hrig h.frames reason).2 hdraw') (by simp [hdraw])
      | ok cost' =>
          have hdrawn := (hk.recordBoth (.drew h.machine.screen)).outline
          rw [hscreen] at hdrawn ⊢
          exact ⟨⟨hk.machine, congrArg (· + 1) hk.frames, hk.polls, hdrawn, hk.rests⟩, rfl⟩

theorem present {rig rig' : Rig} (hrig : rig.SameDraws rig') (hk : h.Alike k) :
    (h.present rig).1.Alike (k.present rig').1 ∧ (h.present rig).2 = (k.present rig').2 := by
  exact draw hrig (hk.withMachines (Machine.noted_congr hk.machine))

theorem redraw {rig rig' : Rig} (hrig : rig.SameDraws rig') (hk : h.Alike k) :
    (h.redraw rig).1.Alike (k.redraw rig').1 ∧ (h.redraw rig).2 = (k.redraw rig').2 := by
  have hstale := Machine.stale_eq_of_still hk.machine
  rw [Host.redraw, Host.redraw, hstale]
  split
  · exact present hrig hk
  · exact ⟨hk, rfl⟩

theorem step (hk : h.Alike k) (hreads : ¬ h.machine.ReadsDelay) :
    h.step.1.Alike k.step.1 ∧ h.step.2 = k.step.2 := by
  obtain ⟨hstill, houtcome⟩ := Machine.step_congr hk.machine hreads
  have hevents : executions h.machine h.machine.step.2 = executions k.machine k.machine.step.2 := by
    rw [Machine.eq_withTimers_of_still hk.machine] at houtcome ⊢
    rw [← houtcome]
    rfl
  have hnoted := hearTogether.noteAll hk (Notice.ofStep h.machine) (Notice.ofStep k.machine)
  rw [step_eq, step_eq, ← hevents]
  exact ⟨(hnoted.withMachines hstill).recordAll _, houtcome⟩

end Alike

theorem catchUp_of_rests (rig : Rig) {h : Host} (hrests : h.pacer.period ≠ 0) :
    ∃ next, h.catchUp rig = some next ∧ next.Alike h := by
  have helapse := Pacer.elapse_eq (Nat.pos_of_ne_zero hrests) (h.clock - h.timersAt)
    h.machine.timers
  refine ⟨_, by rw [catchUp, helapse]; rfl, ?_⟩
  apply (Alike.record _ rfl).trans
  apply (Alike.of_spoken (.followTone rig _)).trans
  exact ⟨rfl, rfl, rfl, rfl, Iff.rfl⟩

/-- Both hosts bring their timers up to date, or neither comes to rest. -/
theorem Alike.catchUp {h k : Host} (hk : h.Alike k) (rig rig' : Rig) :
    (h.catchUp rig).Rel Alike (k.catchUp rig') := by
  by_cases hperiod : h.pacer.period = 0
  · rw [catchUp_eq_none hperiod, catchUp_eq_none (hk.rests.1 hperiod)]
    exact .none
  · obtain ⟨h', hcaught, hh'⟩ := catchUp_of_rests rig hperiod
    obtain ⟨k', hcaught', hk'⟩ := catchUp_of_rests rig' (mt hk.rests.2 hperiod)
    rw [hcaught, hcaught']
    exact .some ((hh'.trans hk).trans hk'.symm)

end Host

/-! ### Stages -/

def Cycle.untimed (cycle : Cycle) : Cycle := { cycle with started := 0 }

theorem Cycle.cases_of_untimed {cycle cycle' : Option Cycle}
    (h : cycle.map untimed = cycle'.map untimed) :
    (cycle = none ∧ cycle' = none) ∨
      ∃ c c', cycle = some c ∧ cycle' = some c' ∧ c.untimed = c'.untimed := by
  cases cycle with
  | none => exact .inl ⟨rfl, Option.map_eq_none_iff.1 h.symm⟩
  | some c =>
      obtain ⟨c', rfl, hc⟩ := Option.map_eq_some_iff.1 h.symm
      exact .inr ⟨c, c', rfl, rfl, hc.symm⟩

def Phase.untimed : Phase → Phase
  | top cycle => top cycle.untimed
  | waiting x cycle => waiting x (cycle.map Cycle.untimed)

inductive Stage.Alike : Stage → Stage → Prop where
  | running {p q : Phase} {h k : Host} (hphase : p.untimed = q.untimed) (hhost : h.Alike k) :
      Alike (.running p h) (.running q k)
  | ended (ending : Ending) {h k : Host} (hhost : h.Alike k) :
      Alike (.ended ending h) (.ended ending k)
  | stalled : Alike .stalled .stalled

namespace Host

theorem Alike.of_finish {rig : Rig} {h next : Host} {ending : Ending}
    (hfinish : h.finish rig ending = .ended ending next) : next.Alike h := by
  have hsilenced := Alike.of_spoken (Spoken.silence rig h)
  obtain ⟨n, rfl⟩ := exists_note_of_finish hfinish
  exact (Alike.record _ rfl).trans hsilenced

/-! ### Runs -/

def HasRead (h : Host) : Prop := ∃ s ∈ h.history, s.event.readsDelay

theorem kept_hasRead (rig : Rig) : Kept rig HasRead := by
  apply kept_of_suffix rig (P := fun history => ∃ s ∈ history, s.event.readsDelay)
  intro old history hsuffix hread
  obtain ⟨s, hs, hreads⟩ := hread
  exact ⟨s, hsuffix.subset hs, hreads⟩

/-- A step that reads the delay timer says so in the history. -/
theorem exists_read_of_step {h : Host} (hreads : h.machine.ReadsDelay) :
    ∃ s earlier, h.step.1.history = s :: earlier ∧ s.event.readsDelay ∧ h.history <:+ earlier := by
  obtain ⟨w, hwaiting, hfetch, hinstruction⟩ := hreads
  have houtcome : h.machine.step.2 = .advanced := by
    cases hw : Instruction.ofWord w with
    | readDelay x => simp [Machine.step, hwaiting, hfetch, hw, Machine.exec, Machine.perform]
    | _ => simp [hw, Instruction.readsDelay] at hinstruction
  have hevents : executions h.machine h.machine.step.2 =
      [.executed h.machine.pc (.ofWord w)] := by
    simp [executions, hwaiting, hfetch, houtcome]
  rw [step_eq, hevents]
  exact ⟨_, _, rfl, hinstruction, (Quiet.noteStep h).history.suffix⟩

theorem hasRead_of_step {h : Host} (hreads : h.machine.ReadsDelay) : h.step.1.HasRead := by
  obtain ⟨s, earlier, hhistory, hs, -⟩ := exists_read_of_step hreads
  exact ⟨s, hhistory ▸ List.mem_cons_self, hs⟩

/-- Alike hosts in cycles that differ only in when they began. -/
def alikeStep : Lockstep :=
  .together Alike (fun cycle cycle' => cycle.untimed = cycle'.untimed) Poll.Same HasRead

theorem Alike.finish {rig rig' : Rig} {h h' k k' : Host} {ending : Ending} (hk : h.Alike k)
    (hfinish : h.finish rig ending = .ended ending h')
    (hfinish' : k.finish rig' ending = .ended ending k') : h'.Alike k' :=
  ((of_finish hfinish).trans hk).trans (of_finish hfinish').symm

theorem Alike.beginCycle {h k : Host} (hk : h.Alike k) (rig rig' : Rig) (limit : Option Nat)
    (done : Nat) : (h.beginCycle rig limit done).InStep alikeStep (k.beginCycle rig' limit done) :=
  Lockstep.beginCycle_together Alike.finish hk rfl rfl

theorem kept_alikeStep {rig rig' : Rig} (hrig : rig.SameDraws rig') : alikeStep.Kept rig rig' where
  poll hk hpoll := hk.poll hpoll
  step {h k} hk := by
    by_cases hreads : h.machine.ReadsDelay
    · exact .inl (hasRead_of_step hreads)
    · exact .inr (hk.step hreads)
  escape := (kept_hasRead rig).course
  escape_poll poll hread := (kept_hasRead rig).quiet (.poll _ poll) hread
  waiting hk := Machine.waiting_eq_of_still hk.machine
  registers hk := Machine.registers_eq_of_still hk.machine
  await _ hk := hk.recordBoth _
  abandon hk := hk.withMachines (Machine.abandonWait_congr hk.machine)
  catchUp hk := hk.catchUp rig rig'
  redraw hk := hk.redraw hrig
  rest hk := hk.elapse _ _
  finish hk hfinish hfinish' := hk.finish hfinish hfinish'
  turn {h k c c'} hk hcycle _ := by
    have hlimit : c.limit = c'.limit := (congrArg Cycle.limit hcycle :)
    have hdone : c.done = c'.done := (congrArg Cycle.done hcycle :)
    rw [hlimit, hdone]
    exact (hk.elapse _ _).beginCycle rig rig' _ _

end Host

def Stage.unreadAtLimit : Stage → Bool
  | .ended .cycleLimit h => h.history.all fun s => !s.event.readsDelay
  | _ => false

theorem Stage.eq_ended_of_unreadAtLimit {stage : Stage} (hstage : stage.unreadAtLimit) :
    ∃ h, stage = .ended .cycleLimit h ∧ ¬ h.HasRead := by
  unfold Stage.unreadAtLimit at hstage
  split at hstage
  · next h =>
    refine ⟨h, rfl, ?_⟩
    rintro ⟨s, hs, hreads⟩
    simpa [hreads] using List.all_eq_true.1 hstage s hs
  · cases hstage

theorem Stage.Alike.inStep {stage stage' : Stage} (hstage : stage.Alike stage') :
    stage.InStep Host.alikeStep stage' := by
  cases hstage with
  | @running p q h k hphase hhost =>
      cases p with
      | top cycle =>
          cases q with
          | top cycle' => exact .top (Phase.top.inj hphase) hhost
          | waiting x cycle' => cases hphase
      | waiting x cycle =>
          cases q with
          | top cycle' => cases hphase
          | waiting x' cycle' =>
              obtain ⟨rfl, hcycle⟩ := Phase.waiting.inj hphase
              obtain ⟨rfl, rfl⟩ | ⟨c, c', rfl, rfl, hc⟩ := Cycle.cases_of_untimed hcycle
              · exact .waiting x .none hhost
              · exact .waiting x (.some hc) hhost
  | @ended ending h k hhost =>
      by_cases hending : ending = .cycleLimit
      · subst hending
        exact .limit ⟨k, rfl, hhost⟩
      · exact .ended hending hhost
  | stalled => exact .stalled

theorem Stage.InStep.alike {stage stage' : Stage} (hstage : stage.InStep Host.alikeStep stage') :
    stage.Alike stage' := by
  cases hstage with
  | top hcycle hhost => exact .running (congrArg Phase.top hcycle) hhost
  | waiting x hcycle hhost =>
      cases hcycle with
      | none => exact .running rfl hhost
      | some hcycle => exact .running (congrArg (Phase.waiting x ∘ some) hcycle) hhost
  | ended hending hhost => exact .ended _ hhost
  | limit hlimit =>
      obtain ⟨k, rfl, hhost⟩ := hlimit
      exact .ended _ hhost
  | stalled => exact .stalled

theorem Host.Alike.start {rig rig' : Rig} (hrig : rig.SameDraws rig') {h k : Host} (hk : h.Alike k)
    (call : Call) : Stage.Alike (call.start rig h) (call.start rig' k) := by
  have hkept := Host.kept_alikeStep hrig
  apply Stage.InStep.alike
  cases call with
  | wait => exact hkept.beginWait hk .none
  | run limit =>
      have hnoted := hk.note (.starting h.machine.pc rig.cycle) (.starting k.machine.pc rig'.cycle)
      obtain ⟨drawn, drawn', failure, hpresent, hpresent', hdrawn⟩ :=
        Lockstep.split_pair (hnoted.recount.present hrig)
      simp only [Call.start, hpresent, hpresent']
      cases failure with
      | some reason => exact hkept.finished hdrawn (by simp)
      | none => exact hdrawn.beginCycle rig rig' limit 0

theorem Stage.Alike.feed {rig rig' : Rig} (hrig : rig.SameDraws rig') {polls polls' : List Poll}
    (hpolls : List.Forall₂ Poll.Same polls polls') {stage stage' : Stage}
    (hstage : stage.Alike stage') :
    (stage.feed rig polls).1.Holds Host.HasRead ∨
      ((stage.feed rig polls).1.Alike (stage'.feed rig' polls').1 ∧
        List.Forall₂ Poll.Same (stage.feed rig polls).2 (stage'.feed rig' polls').2) := by
  rcases (Host.kept_alikeStep hrig).feed_together hpolls hstage.inStep with hread | ⟨hnext, hleft⟩
  · exact .inl (Stage.holds_of_on hread)
  · exact .inr ⟨hnext.alike, hleft⟩

namespace Host

/-- A run that ends and does not read the delay timer does the same on any clock, at any rates and
costs. -/
theorem run_timeless {rig rig' : Rig} (hrig : rig.SameDraws rig') (machine : Machine)
    (keyboard : Keyboard) {rate rate' : UInt32} (hrate : rate.toNat ≤ 1000000000)
    (hrate' : rate'.toNat ≤ 1000000000) (time time' : Nat) (limit : Option Nat)
    {polls polls' left : List Poll} (hpolls : List.Forall₂ Poll.Same polls polls')
    {ending : Ending} {h : Host}
    (hrun : (Call.run limit).perform rig (new machine keyboard rate time) polls =
      (.ended ending h, left))
    (hread : ¬ h.HasRead) :
    ∃ h' left',
      (Call.run limit).perform rig' (new machine keyboard rate' time') polls' =
          (.ended ending h', left') ∧
        h'.polls = h.polls ∧ outline h'.history = outline h.history ∧
        h'.machine = { h.machine with timers := h'.machine.timers } ∧
        List.Forall₂ Poll.Same left left' := by
  have hperiod : periodOf rate ≠ 0 := Nat.pos_iff_ne_zero.1 (periodOf_pos hrate)
  have hperiod' : periodOf rate' ≠ 0 := Nat.pos_iff_ne_zero.1 (periodOf_pos hrate')
  have hnew : (new machine keyboard rate time).Alike (new machine keyboard rate' time') :=
    ⟨rfl, rfl, rfl, rfl, iff_of_false hperiod hperiod'⟩
  rcases (hnew.start hrig (.run limit)).feed hrig hpolls with hreads | ⟨halike, hleft⟩
  · rw [← Call.perform, hrun] at hreads
    exact absurd hreads hread
  · rw [← Call.perform, ← Call.perform, hrun] at halike hleft
    generalize (Call.run limit).perform rig' (new machine keyboard rate' time') polls' = second
      at halike hleft ⊢
    obtain ⟨stage', left'⟩ := second
    cases halike with
    | ended ending hhost =>
        exact ⟨_, left', rfl, hhost.polls.symm, hhost.outline.symm,
          Machine.eq_withTimers_of_still hhost.machine, hleft⟩

/-- A program that sets the sound timer, waits for a key and clears the screen. -/
def patient : Machine := .holding [0x60, 0x05, 0xF0, 0x18, 0xF1, 0x0A, 0x00, 0xE0]

def keyAfterFour (cost : Nat) : List Poll :=
  [[], [], [], [], [.down 7], []].map fun es => .answered cost (.events es)

def idleRig : Rig := ⟨0, fun _ => .ok 5000000, fun _ _ => some "no speaker"⟩

theorem patient_timeless :
    ∃ h left h' left',
      (Call.run (some 4)).perform .steady (new patient (.ofLayout .conventional) 60 0)
          (keyAfterFour 0) = (.ended .cycleLimit h, left) ∧
        (Call.run (some 4)).perform idleRig (new patient (.ofLayout .conventional) 1000 7)
            (keyAfterFour 3000000) = (.ended .cycleLimit h', left') ∧
        outline h'.history = outline h.history := by
  have hdraws : Rig.steady.SameDraws idleRig := by
    intro n reason
    simp [Rig.steady, idleRig]
  have hpolls : List.Forall₂ Poll.Same (keyAfterFour 0) (keyAfterFour 3000000) := by
    repeat' constructor
  have hunread : ((Call.run (some 4)).perform .steady (new patient (.ofLayout .conventional) 60 0)
      (keyAfterFour 0)).1.unreadAtLimit := by
    decide +kernel
  generalize hrun : (Call.run (some 4)).perform .steady
    (new patient (.ofLayout .conventional) 60 0) (keyAfterFour 0) = first at hunread ⊢
  obtain ⟨stage, left⟩ := first
  obtain ⟨h, rfl, hread⟩ := Stage.eq_ended_of_unreadAtLimit hunread
  obtain ⟨h', left', hrun', -, houtline, -⟩ :=
    run_timeless hdraws patient (.ofLayout .conventional) (show (60 : UInt32).toNat ≤ 1000000000 by decide)
      (show (1000 : UInt32).toNat ≤ 1000000000 by decide) 0 7 (some 4) hpolls hrun hread
  exact ⟨h, left, h', left', rfl, hrun', houtline⟩

end Host

end Chip8Console
