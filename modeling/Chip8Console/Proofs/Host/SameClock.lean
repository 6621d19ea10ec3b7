import Chip8Console.Proofs.Host.Timing

/-!
# Hosts with the same clock

Two hosts whose clocks, keyboards and machines agree go in lockstep when they are given the same polls,
whatever their speakers and histories: polls and sleeps take both the same time, and so do draws if they
cost nothing. If their timers agree too, and the time that is pending, nothing tells them apart. If they do
not, the machines differ in their timers only, until the delay timer is read.
-/

namespace Chip8Console

def delayReads (history : List Stamped) : Nat := history.countP fun s => s.event.readsDelay

theorem delayReads_le {old history : List Stamped} (h : old <:+ history) :
    delayReads old ≤ delayReads history := h.sublist.countP_le

namespace Host

/-- Two hosts with the same clock, and with the same timers if they are `timed`. -/
structure Beside (timed : Prop) (h k : Host) : Prop where
  machine : h.machine.still = k.machine.still
  keyboard : h.keyboard = k.keyboard
  clock : h.clock = k.clock
  period : h.pacer.period = k.pacer.period
  timers : timed → h.machine.timers = k.machine.timers ∧ h.pacer = k.pacer ∧ h.timersAt = k.timersAt

namespace Beside

variable {timed : Prop} {rig : Rig} {h k l : Host}

theorem symm (hk : h.Beside timed k) : k.Beside timed h :=
  ⟨hk.machine.symm, hk.keyboard.symm, hk.clock.symm, hk.period.symm, fun htimed => by
    obtain ⟨htimers, hpacer, htimersAt⟩ := hk.timers htimed
    exact ⟨htimers.symm, hpacer.symm, htimersAt.symm⟩⟩

theorem trans (hk : h.Beside timed k) (kl : k.Beside timed l) : h.Beside timed l :=
  ⟨hk.machine.trans kl.machine, hk.keyboard.trans kl.keyboard, hk.clock.trans kl.clock,
    hk.period.trans kl.period, fun htimed => by
      obtain ⟨htimers, hpacer, htimersAt⟩ := hk.timers htimed
      obtain ⟨htimers', hpacer', htimersAt'⟩ := kl.timers htimed
      exact ⟨htimers.trans htimers', hpacer.trans hpacer', htimersAt.trans htimersAt'⟩⟩

theorem machine_eq (hk : h.Beside timed k) (htimed : timed) : h.machine = k.machine := by
  rw [Machine.eq_withTimers_of_still hk.machine, ← (hk.timers htimed).1]
  rfl

/-! ### Changes that nothing tells apart -/

theorem record (timed : Prop) (h : Host) (e : Event) : (h.record e).Beside timed h :=
  ⟨rfl, rfl, rfl, rfl, fun _ => ⟨rfl, rfl, rfl⟩⟩

theorem recordAll (timed : Prop) (h : Host) (es : List Event) :
    (es.foldl Host.record h).Beside timed h := by
  rw [recordAll_eq]
  exact ⟨rfl, rfl, rfl, rfl, fun _ => ⟨rfl, rfl, rfl⟩⟩

theorem of_spoken (timed : Prop) (hspoken : h.Spoken k) : k.Beside timed h :=
  ⟨congrArg Machine.still hspoken.machine, hspoken.keyboard, hspoken.clock,
    congrArg Pacer.period hspoken.pacer, fun _ =>
      ⟨congrArg Machine.timers hspoken.machine, hspoken.pacer, hspoken.timersAt⟩⟩

theorem of_finish (timed : Prop) {ending : Ending} (hfinish : h.finish rig ending = .ended ending k) :
    k.Beside timed h := by
  have hsilenced := of_spoken timed (Spoken.silence rig h)
  obtain ⟨n, rfl⟩ := exists_note_of_finish hfinish
  exact (record timed _ _).trans hsilenced

/-! ### Changes that both make -/

theorem elapse (hk : h.Beside timed k) (time : Nat) :
    (h.elapse time).Beside timed (k.elapse time) :=
  ⟨hk.machine, hk.keyboard, congrArg (· + time) hk.clock, hk.period, hk.timers⟩

theorem withMachines (hk : h.Beside timed k) {m n : Machine} (hmn : m.still = n.still)
    (htimers : timed → m.timers = n.timers) :
    Beside timed { h with machine := m } { k with machine := n } :=
  ⟨hmn, hk.keyboard, hk.clock, hk.period, fun htimed => ⟨htimers htimed, (hk.timers htimed).2⟩⟩

/-- What is done to both machines without a look at the timers. -/
theorem mapMachines (hk : h.Beside timed k) {f : Machine → Machine}
    (hf : ∀ {m n : Machine}, m.still = n.still → (f m).still = (f n).still) :
    Beside timed { h with machine := f h.machine } { k with machine := f k.machine } := by
  apply hk.withMachines (hf hk.machine)
  intro htimed
  rw [hk.machine_eq htimed]

theorem hearTogether (timed : Prop) : HearTogether (Beside timed) where
  noteLeft _ hk := (record timed _ _).trans hk
  noteRight _ hk := hk.trans (record timed _ _).symm
  press key hk := hk.mapMachines fun hmn => Machine.pressKey_congr hmn key
  release key hk := hk.mapMachines fun hmn => Machine.releaseKey_congr hmn key

theorem receive (hk : h.Beside timed k) (arrival : Arrival) :
    (h.receive arrival).1.Beside timed (k.receive arrival).1 ∧
      (h.receive arrival).2 = (k.receive arrival).2 := by
  cases arrival with
  | events es => exact ⟨hk, rfl⟩
  | strokes ks =>
      have hpolled : h.keyboard.poll h.clock ks = k.keyboard.poll k.clock ks := by
        rw [hk.keyboard, hk.clock]
      simp only [Host.receive, hpolled]
      refine ⟨(hearTogether timed).noteAll ?_ _ _, trivial⟩
      exact ⟨hk.machine, rfl, hk.clock, hk.period, hk.timers⟩

theorem poll (hk : h.Beside timed k) (poll : Poll) :
    (h.poll poll).1.Beside timed (k.poll poll).1 ∧ (h.poll poll).2 = (k.poll poll).2 := by
  cases poll with
  | lost reason => exact ⟨hk, rfl⟩
  | answered cost arrival =>
      have hasked : (h.asked cost).Beside timed (k.asked cost) :=
        ⟨hk.machine, hk.keyboard, congrArg (· + cost) hk.clock, hk.period, hk.timers⟩
      obtain ⟨hreceived, hevents⟩ := hasked.receive arrival
      obtain ⟨hheard, hquit⟩ :=
        (hearTogether timed).events hreceived ((h.asked cost).receive arrival).2
      rw [poll_answered, poll_answered]
      unfold hearing
      rw [← hevents]
      exact ⟨hheard, by rw [hquit]⟩

theorem present (hdraw : ∀ frames, rig.draw frames = .ok 0) (hk : h.Beside timed k) :
    (h.present rig).1.Beside timed (k.present rig).1 ∧ (h.present rig).2 = (k.present rig).2 := by
  have hnoted := hk.mapMachines fun hmn => Machine.noted_congr hmn
  simp only [Host.present, Host.draw, hdraw]
  exact ⟨⟨hnoted.machine, hnoted.keyboard, hnoted.clock, hnoted.period, hnoted.timers⟩, trivial⟩

theorem redraw (hdraw : ∀ frames, rig.draw frames = .ok 0) (hk : h.Beside timed k) :
    (h.redraw rig).1.Beside timed (k.redraw rig).1 ∧ (h.redraw rig).2 = (k.redraw rig).2 := by
  rw [Host.redraw, Host.redraw, Machine.stale_eq_of_still hk.machine]
  split
  · exact present hdraw hk
  · exact ⟨hk, rfl⟩

theorem step (hk : h.Beside timed k) (hreads : timed ∨ ¬ h.machine.ReadsDelay) :
    h.step.1.Beside timed k.step.1 ∧ h.step.2 = k.step.2 := by
  have hstepped : h.machine.step.1.still = k.machine.step.1.still ∧
      h.machine.step.2 = k.machine.step.2 := by
    rcases hreads with htimed | hreads
    · rw [hk.machine_eq htimed]
      exact ⟨rfl, rfl⟩
    · exact Machine.step_congr hk.machine hreads
  have hnoted := (hearTogether timed).noteAll hk (Notice.ofStep h.machine) (Notice.ofStep k.machine)
  have hmachines := hnoted.withMachines hstepped.1 fun htimed => by rw [hk.machine_eq htimed]
  rw [step_eq, step_eq]
  exact ⟨((recordAll timed _ _).trans hmachines).trans (recordAll timed _ _).symm, hstepped.2⟩

theorem serviced {h' k' : Host} (hk : h.Beside timed k)
    (hserviced : h.Serviced ((h.pacer.pending + (h.clock - h.timersAt)) / h.pacer.period) h')
    (hserviced' : k.Serviced ((k.pacer.pending + (k.clock - k.timersAt)) / k.pacer.period) k') :
    h'.Beside timed k' := by
  obtain ⟨hmachine, hkeyboard, hpacer, hclock, htimersAt, -⟩ := hserviced
  obtain ⟨hmachine', hkeyboard', hpacer', hclock', htimersAt', -⟩ := hserviced'
  refine ⟨?_, ?_, ?_, ?_, fun htimed => ?_⟩
  · rw [hmachine, hmachine']
    exact hk.machine
  · rw [hkeyboard, hkeyboard', hk.keyboard]
  · rw [hclock, hclock', hk.clock]
  · rw [hpacer, hpacer']
    exact hk.period
  · obtain ⟨htimers, hsame, hsince⟩ := hk.timers htimed
    rw [hmachine, hmachine', hpacer, hpacer', htimersAt, htimersAt', htimers, hsame, hsince, hk.clock]
    exact ⟨rfl, rfl, rfl⟩

theorem catchUp (hk : h.Beside timed k) (rig : Rig) :
    (h.catchUp rig).Rel (Beside timed) (k.catchUp rig) := by
  by_cases hperiod : h.pacer.period = 0
  · rw [catchUp_eq_none hperiod, catchUp_eq_none (hk.period.symm.trans hperiod)]
    exact .none
  · have hpos := Nat.pos_of_ne_zero hperiod
    have hpos' : 0 < k.pacer.period := hk.period ▸ hpos
    cases hcaught : h.catchUp rig with
    | none => exact absurd hcaught (catchUp_ne_none hpos)
    | some next =>
        cases hcaught' : k.catchUp rig with
        | none => exact absurd hcaught' (catchUp_ne_none hpos')
        | some next' =>
            exact .some (hk.serviced (serviced_of_catchUp hpos hcaught) (serviced_of_catchUp hpos' hcaught'))

/-! ### In lockstep -/

theorem finish {h' k' : Host} {ending : Ending} (hk : h.Beside timed k)
    (hfinish : h.finish rig ending = .ended ending h')
    (hfinish' : k.finish rig ending = .ended ending k') : h'.Beside timed k' :=
  ((of_finish timed hfinish).trans hk).trans (of_finish timed hfinish').symm

end Beside

/-- Hosts side by side, the second of them in cycles that are numbered higher. The first gets out of step
when it reads a delay timer that the second may not share. -/
def besideStep (timed : Prop) (ahead reads : Nat) : Lockstep :=
  .together (fun h k => h.Beside timed k ∧ reads ≤ delayReads h.history)
    (fun c c' => c' = ⟨c.limit.map (ahead + ·), ahead + c.done, c.started⟩) Eq
    (fun h => ¬ timed ∧ reads < delayReads h.history)

section BesideStep

variable {rig : Rig} {timed : Prop} {ahead reads : Nat} {h k : Host}

theorem delayReads_lt_step (hreads : h.machine.ReadsDelay) :
    delayReads h.history < delayReads h.step.1.history := by
  obtain ⟨s, earlier, hhistory, hs, hsuffix⟩ := exists_read_of_step hreads
  have hcount : delayReads (s :: earlier) = delayReads earlier + 1 := List.countP_cons_of_pos hs
  rw [hhistory, hcount]
  exact Nat.lt_succ_of_le (delayReads_le hsuffix)

theorem kept_delayReads (rig : Rig) (reads : Nat) : Kept rig fun h => reads ≤ delayReads h.history :=
  kept_of_suffix rig (P := fun history => reads ≤ delayReads history) fun hsuffix hreads =>
    Nat.le_trans hreads (delayReads_le hsuffix)

theorem kept_escape (rig : Rig) : Kept rig (besideStep timed ahead reads).escapes :=
  kept_of_suffix rig (P := fun history => ¬ timed ∧ reads < delayReads history) fun hsuffix hescapes =>
    ⟨hescapes.1, Nat.lt_of_lt_of_le hescapes.2 (delayReads_le hsuffix)⟩

theorem besideStep_finish {h' k' : Host} {ending : Ending}
    (hk : (besideStep timed ahead reads).hosts h k) (hfinish : h.finish rig ending = .ended ending h')
    (hfinish' : k.finish rig ending = .ended ending k') : (besideStep timed ahead reads).hosts h' k' :=
  ⟨hk.1.finish hfinish hfinish', (kept_delayReads rig reads).course.finish hk.2 hfinish⟩

theorem beginCycle_beside (hk : (besideStep timed ahead reads).hosts h k) (limit : Option Nat)
    (done : Nat) :
    (h.beginCycle rig limit done).InStep (besideStep timed ahead reads)
      (k.beginCycle rig (limit.map (ahead + ·)) (ahead + done)) := by
  apply Lockstep.beginCycle_together besideStep_finish hk
  · cases limit <;> simp
  · rw [← hk.1.clock]

theorem kept_besideStep (hdraw : ∀ frames, rig.draw frames = .ok 0) (timed : Prop) (ahead reads : Nat) :
    (besideStep timed ahead reads).Kept rig rig where
  poll hk hpoll := by
    cases hpoll
    obtain ⟨hpolled, hheard⟩ := hk.1.poll _
    exact ⟨⟨hpolled, (kept_delayReads rig reads).quiet (.poll _ _) hk.2⟩, hheard⟩
  step {h k} hk := by
    by_cases hreads : timed ∨ ¬ h.machine.ReadsDelay
    · obtain ⟨hstepped, houtcome⟩ := hk.1.step hreads
      exact .inr ⟨⟨hstepped, (kept_delayReads rig reads).quiet (.step _) hk.2⟩, houtcome⟩
    · rw [not_or, not_not] at hreads
      exact .inl ⟨hreads.1, Nat.lt_of_le_of_lt hk.2 (delayReads_lt_step hreads.2)⟩
  escape := (kept_escape rig).course
  escape_poll poll hescapes := (kept_escape rig).quiet (.poll _ poll) hescapes
  waiting hk := Machine.waiting_eq_of_still hk.1.machine
  registers hk := Machine.registers_eq_of_still hk.1.machine
  await _ hk := ⟨(Beside.hearTogether timed).noteAll hk.1 [_] [_], hk.2⟩
  abandon hk := ⟨hk.1.mapMachines fun hmn => Machine.abandonWait_congr hmn, hk.2⟩
  catchUp {h k} hk := by
    have hcaught := hk.1.catchUp rig
    have hgrown : ∀ next, h.catchUp rig = some next → reads ≤ delayReads next.history :=
      fun _ hnext => (kept_delayReads rig reads).catchUp hnext hk.2
    generalize h.catchUp rig = caught, k.catchUp rig = caught' at hcaught hgrown ⊢
    cases hcaught with
    | none => exact .none
    | some hnext => exact .some ⟨hnext, hgrown _ rfl⟩
  redraw hk := by
    obtain ⟨hdrawn, hfailure⟩ := hk.1.redraw hdraw
    exact ⟨⟨hdrawn, (kept_delayReads rig reads).quiet (.redraw rig _) hk.2⟩, hfailure⟩
  rest {h k} hk := by
    rw [← hk.1.period]
    exact ⟨hk.1.elapse _, hk.2⟩
  finish hk hfinish hfinish' := besideStep_finish hk hfinish hfinish'
  turn {h k c c'} hk hcycle _ := by
    cases hcycle
    rw [← hk.1.clock]
    exact beginCycle_beside ⟨hk.1.elapse _, hk.2⟩ c.limit (c.done + 1)

end BesideStep

end Host

end Chip8Console
