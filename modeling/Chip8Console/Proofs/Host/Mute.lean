import Chip8Console.Proofs.Host.Lockstep

/-!
# Hosts without a speaker

A mute host takes its speaker for broken and keeps quiet about it: it has made no calls, and its history
says nothing of any. Since it makes none either, the speaker of its rig is of no concern to it. All the
same it goes in lockstep with the host that it is made from, whatever becomes of that host's calls. So a
session comes to the same with every speaker, up to what is said to the speaker.
-/

namespace Chip8Console

def Host.mute (h : Host) : Host :=
  { h with speakerWorks := false, calls := 0, history := h.history.filter fun s => !s.event.spoken }

def Stage.mute : Stage → Stage
  | .running phase h => .running phase h.mute
  | .ended ending h => .ended ending h.mute
  | .stalled => .stalled

namespace Host

/-! ### Nothing but the tone is said to the speaker -/

theorem mute_record {e : Event} (he : e.spoken = false) (h : Host) :
    (h.record e).mute = h.mute.record e := by
  simp [mute, record, he]

theorem mute_recordAll {es : List Event} (hes : ∀ e ∈ es, e.spoken = false) (h : Host) :
    (es.foldl record h).mute = es.foldl record h.mute := by
  induction es generalizing h with
  | nil => rfl
  | cons e es ih =>
      rw [List.foldl_cons, List.foldl_cons, ← mute_record (hes e List.mem_cons_self)]
      exact ih (fun e he => hes e (List.mem_cons_of_mem _ he)) _

theorem mute_noteAll {ns : List Notice} (hns : ∀ n ∈ ns, (Event.noted n).plain) (h : Host) :
    (h.noteAll ns).mute = h.mute.noteAll ns := by
  have hrecorded (h : Host) : h.noteAll ns = (ns.map Event.noted).foldl record h := by
    rw [List.foldl_map]
    rfl
  rw [hrecorded, hrecorded]
  apply mute_recordAll
  intro e he
  obtain ⟨n, hn, rfl⟩ := List.mem_map.1 he
  exact Event.spoken_eq_false_of_plain (hns n hn)

theorem mute_hear (h : Host) (es : List KeyEvent) :
    h.mute.hear es = ((h.hear es).1.mute, (h.hear es).2) := by
  induction es generalizing h with
  | nil => rfl
  | cons e es ih =>
      cases e with
      | quit => rfl
      | down key =>
          have hnoted : (h.noteAll (Notice.ofPressKey h.machine key)).mute =
              h.mute.noteAll (Notice.ofPressKey h.machine key) :=
            mute_noteAll (fun _ hn => Event.plain_of_mem_ofPressKey hn) h
          have hpressed := ih { h.noteAll (Notice.ofPressKey h.machine key) with
            machine := (h.noteAll (Notice.ofPressKey h.machine key)).machine.pressKey key }
          simp only [hear]
          rw [← hpressed]
          exact congrArg (fun k : Host => hear { k with machine := k.machine.pressKey key } es) hnoted.symm
      | up key => exact ih { h with machine := h.machine.releaseKey key }

theorem mute_receive (h : Host) (arrival : Arrival) :
    h.mute.receive arrival = ((h.receive arrival).1.mute, (h.receive arrival).2) := by
  cases arrival with
  | events es => rfl
  | strokes ks =>
      have hplain : ∀ n ∈ ks.flatMap (Notice.ofKeystroke h.keyboard), (Event.noted n).plain := by
        intro n hn
        obtain ⟨stroke, -, hn⟩ := List.mem_flatMap.1 hn
        exact Event.plain_of_mem_ofKeystroke hn
      exact Prod.ext (mute_noteAll hplain { h with keyboard := (h.keyboard.poll h.clock ks).1 }).symm rfl

theorem mute_poll (h : Host) (poll : Poll) :
    h.mute.poll poll = ((h.poll poll).1.mute, (h.poll poll).2) := by
  cases poll with
  | lost reason => rfl
  | answered cost arrival =>
      have hasked : (h.asked cost).mute = h.mute.asked cost := mute_record rfl _
      have hhearing : h.mute.hearing cost arrival =
          ((h.hearing cost arrival).1.mute, (h.hearing cost arrival).2) := by
        unfold hearing
        rw [← hasked, mute_receive, mute_hear]
      rw [poll_answered, poll_answered, hhearing]

theorem mute_step (h : Host) : h.mute.step = (h.step.1.mute, h.step.2) := by
  have hnoted : (h.noteAll (Notice.ofStep h.machine)).mute = h.mute.noteAll (Notice.ofStep h.machine) :=
    mute_noteAll (fun _ hn => Event.plain_of_mem_ofStep hn) h
  have hexecuted : ∀ e ∈ executions h.machine h.machine.step.2, e.spoken = false := fun e he =>
    Event.spoken_eq_false_of_plain (Event.plain_of_mem_executions he)
  rw [step_eq, step_eq, mute_recordAll hexecuted]
  exact Prod.ext (congrArg (fun k : Host => (executions h.machine h.machine.step.2).foldl record
    { k with machine := h.machine.step.1 }) hnoted.symm) rfl

section Rigs

variable (rig : Rig) (speaker : Nat → Tone → Option String)

theorem mute_present (h : Host) :
    h.mute.present { rig with speaker } = ((h.present rig).1.mute, (h.present rig).2) := by
  have hframes : h.mute.frames = h.frames := rfl
  simp only [present, draw, hframes]
  cases rig.draw h.frames with
  | error reason => rfl
  | ok cost =>
      have hdrew := mute_record (e := .drew h.machine.screen) rfl { h with machine := h.machine.noted }
      exact Prod.ext (congrArg (fun k : Host => { k with frames := h.frames + 1 }.elapse cost) hdrew.symm) rfl

theorem mute_redraw (h : Host) :
    h.mute.redraw { rig with speaker } = ((h.redraw rig).1.mute, (h.redraw rig).2) := by
  have hstale : h.mute.machine.stale = h.machine.stale := rfl
  simp only [redraw, hstale]
  split
  · exact mute_present rig speaker h
  · rfl

/-! ### The tone -/

theorem mute_of_spoken {h next : Host} (hspoken : h.Spoken next) :
    next.mute = { h.mute with tone := next.tone } := by
  obtain ⟨hmachine, hkeyboard, hpacer, hclock, htimersAt, hframes, hpolls, new, hhistory, hnew⟩ := hspoken
  have hsilent : new.filter (fun s => !s.event.spoken) = [] := by
    apply List.filter_eq_nil_iff.2
    intro s hs
    simp [hnew s hs]
  simp [mute, hmachine, hkeyboard, hpacer, hclock, htimersAt, hframes, hpolls, hhistory, hsilent]

theorem followTone_tone (h : Host) :
    (h.followTone rig).tone = (h.tone.observe h.machine.timers).1 := by
  unfold followTone
  split
  · next heq => rw [heq]
  · next heq =>
    rw [heq]
    split
    · split
      · next hsound => exact (congrArg (fun answer : Host × Option String => answer.1.tone) hsound).symm
      · next hsound => exact (congrArg (fun answer : Host × Option String => answer.1.tone) hsound).symm
    · rfl

theorem followTone_of_broken {h : Host} (hbroken : h.speakerWorks = false) :
    h.followTone rig = { h with tone := (h.tone.observe h.machine.timers).1 } := by
  unfold followTone
  split
  · next heq => rw [heq]
  · next heq =>
    rw [heq, hbroken]
    rfl

theorem mute_followTone (h : Host) :
    h.mute.followTone { rig with speaker } = (h.followTone rig).mute := by
  rw [mute_of_spoken (.followTone rig h), followTone_tone, followTone_of_broken _ rfl]
  rfl

theorem mute_silence (h : Host) :
    h.mute.silence { rig with speaker } = (h.silence rig).mute := by
  have htone : (h.silence rig).tone = h.tone := by
    unfold silence
    split
    · split
      · next hsound => exact (congrArg (fun answer : Host × Option String => answer.1.tone) hsound).symm
      · next hsound => exact (congrArg (fun answer : Host × Option String => answer.1.tone) hsound).symm
    · rfl
  have hquiet : h.mute.silence { rig with speaker } = h.mute := by
    simp [silence, mute]
  rw [mute_of_spoken (.silence rig h), htone, hquiet]
  rfl

/-! ### In lockstep -/

theorem mute_catchUp (h : Host) :
    h.mute.catchUp { rig with speaker } = (h.catchUp rig).map mute := by
  unfold catchUp
  rw [Option.map_map]
  apply Option.map_congr
  rintro ⟨pacer, timers, ticks⟩ -
  have hticked : (h.mute.ticked pacer timers).followTone { rig with speaker } =
      ((h.ticked pacer timers).followTone rig).mute := mute_followTone rig speaker (h.ticked pacer timers)
  exact (congrArg (fun k : Host => k.record (.caughtUp ticks timers)) hticked).trans
    (mute_record rfl _).symm

theorem mute_finish (h : Host) (ending : Ending) :
    h.mute.finish { rig with speaker } ending = (h.finish rig ending).mute := by
  have hmachine : (h.silence rig).mute.machine = (h.silence rig).machine := rfl
  cases ending with
  | failed e =>
      simp only [finish, mute_silence, hmachine, Stage.mute]
      rw [Host.note, Host.note, mute_record rfl]
  | _ =>
      simp only [finish, mute_silence, Stage.mute]
      rw [Host.note, Host.note, mute_record rfl]

/-- A host and what it is without its speaker. -/
def mutely : Lockstep := .together (fun h k => k = h.mute) Eq Eq fun _ => False

theorem finish_mutely {h h' k k' : Host} {ending : Ending} (hk : k = h.mute)
    (hfinish : h.finish rig ending = .ended ending h')
    (hfinish' : k.finish { rig with speaker } ending = .ended ending k') : k' = h'.mute := by
  rw [hk, mute_finish, hfinish] at hfinish'
  exact (Stage.ended.inj hfinish').2.symm

theorem beginCycle_mutely (h : Host) (limit : Option Nat) (done : Nat) :
    (h.beginCycle rig limit done).InStep mutely (h.mute.beginCycle { rig with speaker } limit done) :=
  Lockstep.beginCycle_together (finish_mutely rig speaker) rfl rfl rfl

theorem kept_mutely : mutely.Kept rig { rig with speaker } where
  poll {h k p q} hk hpoll := by
    cases hk
    cases hpoll
    rw [mute_poll]
    exact ⟨rfl, rfl⟩
  step {h k} hk := by
    cases hk
    right
    rw [mute_step]
    exact ⟨rfl, rfl⟩
  escape := Course.kept_throughout (fun _ hh => hh) (fun hh _ => hh.elim) (fun hh _ => hh) fun hh _ => hh
  escape_poll _ hh := hh
  waiting hk := by
    cases hk
    rfl
  registers hk := by
    cases hk
    rfl
  await {h k} x hk := by
    cases hk
    exact (mute_record rfl h).symm
  abandon hk := by
    cases hk
    rfl
  catchUp {h k} hk := by
    cases hk
    rw [mute_catchUp]
    cases h.catchUp rig with
    | none => exact .none
    | some next => exact .some rfl
  redraw {h k} hk := by
    cases hk
    rw [mute_redraw]
    exact ⟨rfl, rfl⟩
  rest hk := by
    cases hk
    rfl
  finish hk := finish_mutely rig speaker hk
  turn {h k c c'} hk hcycle _ := by
    cases hk
    cases hcycle
    exact beginCycle_mutely rig speaker _ c.limit (c.done + 1)

theorem mute_of_inStep {stage stage' : Stage} (hstage : stage.InStep mutely stage') :
    stage.mute = stage' := by
  cases hstage with
  | top hcycle hhost =>
      cases hcycle
      cases hhost
      rfl
  | waiting x hcycle hhost =>
      cases hhost
      cases hcycle with
      | none => rfl
      | some hcycle =>
          cases hcycle
          rfl
  | ended hending hhost =>
      cases hhost
      rfl
  | limit hlimit =>
      obtain ⟨k, rfl, rfl⟩ := hlimit
      rfl
  | stalled => rfl

theorem start_mutely (h : Host) (call : Call) :
    (call.start rig h).InStep mutely (call.start { rig with speaker } h.mute) := by
  have hkept := kept_mutely rig speaker
  cases call with
  | wait => exact hkept.beginWait rfl .none
  | run limit =>
      obtain ⟨noted, hnoted⟩ : ∃ noted, h.note (.starting h.machine.pc rig.cycle) = noted := ⟨_, rfl⟩
      have hnoted' : h.mute.note (.starting h.mute.machine.pc rig.cycle) = noted.mute := by
        rw [← hnoted]
        exact (mute_record rfl h).symm
      have hpresented := mute_present rig speaker { noted with timersAt := noted.clock }
      obtain ⟨drawn, failure, hpresent⟩ : ∃ drawn failure,
          { noted with timersAt := noted.clock }.present rig = (drawn, failure) := ⟨_, _, rfl⟩
      rw [hpresent] at hpresented
      have hpresent' : { noted.mute with timersAt := noted.mute.clock }.present { rig with speaker } =
          (drawn.mute, failure) := hpresented
      simp only [Call.start, hnoted, hnoted', hpresent, hpresent']
      cases failure with
      | some reason => exact hkept.finished rfl (by simp)
      | none => exact beginCycle_mutely rig speaker drawn limit 0

theorem perform_mutely (h : Host) (call : Call) (polls : List Poll) :
    call.perform { rig with speaker } h.mute polls =
      ((call.perform rig h polls).1.mute, (call.perform rig h polls).2) := by
  have hpolls : List.Forall₂ Eq polls polls := List.forall₂_eq_eq_eq ▸ rfl
  rcases (kept_mutely rig speaker).feed_together hpolls (start_mutely rig speaker h call) with
    hescapes | ⟨hstage, hleft⟩
  · exact absurd hescapes (Lockstep.not_away fun _ => id)
  · rw [List.forall₂_eq_eq_eq] at hleft
    exact Prod.ext (mute_of_inStep hstage).symm hleft.symm

/-- What the calls of a session come to without the speaker, whatever the speaker does. -/
theorem session_mutely (h : Host) (polls : List Poll) (turns : List Turn) :
    h.mute.session { rig with speaker } polls turns = (h.session rig polls turns).map Stage.mute := by
  induction turns generalizing h polls with
  | nil => rfl
  | cons turn turns ih =>
      have hperform := perform_mutely rig speaker (h.elapse turn.pause) turn.call polls
      have helapsed : h.mute.elapse turn.pause = (h.elapse turn.pause).mute := rfl
      rw [session, session, helapsed, hperform]
      generalize turn.call.perform rig (h.elapse turn.pause) polls = performed
      obtain ⟨stage, left⟩ := performed
      cases stage with
      | running phase next => rfl
      | ended ending next => exact congrArg _ (ih next left)
      | stalled => rfl

end Rigs

end Host

end Chip8Console
