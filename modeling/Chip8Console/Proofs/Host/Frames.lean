import Chip8Console.Proofs.Host.Session
import Chip8Console.Proofs.Machine.Action
import Chip8Console.Proofs.Machine.Painting

/-!
# The frames of a run

A run shows the screen once when it begins and then once after every instruction that has changed it, at
the end of the same cycle. Between polls at most one frame is owed: after such an instruction there is one
frame less than there should be and the screen is stale, and otherwise the last frame is the screen as it
is. A draw that fails ends the run, and is the frame that is then missing.
-/

namespace Chip8Console

namespace Event

def shown? : Event → Option Screen
  | drew screen => some screen
  | _ => none

def paints : Event → Bool
  | executed _ instruction => instruction.paints
  | _ => false

def offScreen (e : Event) : Bool := !e.paints && e.shown?.isNone

end Event

/-- The screens shown in a history, the latest first. -/
def shown (events : List Stamped) : List Screen := events.filterMap fun s => s.event.shown?

def paintings (events : List Stamped) : Nat := events.countP fun s => s.event.paints

theorem shown_append {new : List Stamped} (hnew : ∀ s ∈ new, s.event.offScreen)
    (events : List Stamped) : shown (new ++ events) = shown events := by
  have hnone : shown new = [] := by
    apply List.filterMap_eq_nil_iff.2
    intro s hs
    have hoff := hnew s hs
    simp only [Event.offScreen, Bool.and_eq_true, Option.isNone_iff_eq_none] at hoff
    exact hoff.2
  rw [shown, List.filterMap_append]
  exact congrArg (· ++ shown events) hnone

theorem paintings_append {new : List Stamped} (hnew : ∀ s ∈ new, s.event.offScreen)
    (events : List Stamped) : paintings (new ++ events) = paintings events := by
  have hnone : paintings new = 0 := by
    apply List.countP_eq_zero.2
    intro s hs
    have hoff := hnew s hs
    simp only [Event.offScreen, Bool.and_eq_true, Bool.not_eq_true'] at hoff
    simp [hoff.1]
  rw [paintings, List.countP_append]
  exact (congrArg (· + paintings events) hnone).trans (Nat.zero_add _)

theorem Event.offScreen_of_mem_executions {m : Machine} (hpaints : ¬ m.Paints) {outcome : Outcome}
    {e : Event} (h : e ∈ Host.executions m outcome) : e.offScreen := by
  have hother {w : Word} (hwaiting : ¬ m.waiting.isSome) (hfetch : m.fetch = .ok w) :
      (Event.executed m.pc (.ofWord w)).offScreen := by
    have hw : (Instruction.ofWord w).paints = false := Bool.eq_false_iff.2 fun hw =>
      hpaints ⟨w, Option.not_isSome_iff_eq_none.1 hwaiting, hfetch, hw⟩
    simp [offScreen, paints, shown?, hw]
  unfold Host.executions at h
  split at h
  · cases h
  · next hwaiting =>
    split at h
    · next hfetch =>
      rw [List.mem_singleton.1 h]
      exact hother hwaiting hfetch
    · next hfetch =>
      rw [List.mem_singleton.1 h]
      exact hother hwaiting hfetch
    · cases h

namespace Host

/-! ### Changes that the screen has no part in -/

structure Aside (h next : Host) : Prop where
  screen : h.machine.SameScreen next.machine
  frames : next.frames = h.frames
  history : Adds Event.offScreen h.history next.history

namespace Aside

variable {rig : Rig} {h middle next : Host}

theorem refl (h : Host) : h.Aside h := ⟨.refl _, rfl, .refl _ _⟩

theorem trans (first : h.Aside middle) (second : middle.Aside next) : h.Aside next :=
  ⟨first.screen.trans second.screen, second.frames.trans first.frames,
    first.history.trans second.history⟩

theorem note (h : Host) (n : Notice) : h.Aside (h.note n) := ⟨.refl _, rfl, .cons rfl⟩

theorem elapse (h : Host) (time : Nat) : h.Aside (h.elapse time) := ⟨.refl _, rfl, .refl _ _⟩

theorem machine (h : Host) {m : Machine} (hscreen : h.machine.SameScreen m) :
    h.Aside { h with machine := m } := ⟨hscreen, rfl, .refl _ _⟩

theorem keptByPoll (h : Host) : KeptByPoll h.Aside where
  ask _ hh := hh.trans ⟨.refl _, rfl, .cons rfl⟩
  keyboard _ hh := hh.trans ⟨.refl _, rfl, .refl _ _⟩
  note _ hh := hh.trans (note _ _)
  press key hh := hh.trans (machine _ (.pressKey _ key))
  release _ hh := hh.trans (machine _ ⟨rfl, rfl⟩)

theorem poll (h : Host) (poll : Poll) : h.Aside (h.poll poll).1 := (keptByPoll h).poll poll (refl h)

theorem of_poll {poll : Poll} {heard : Heard} (hpoll : h.poll poll = (next, heard)) : h.Aside next := by
  have haside := Aside.poll h poll
  rw [hpoll] at haside
  exact haside

theorem of_spoken (hspoken : h.Spoken next) : h.Aside next := by
  refine ⟨hspoken.machine ▸ .refl _, hspoken.frames, hspoken.history.mono ?_⟩
  intro e he
  cases e with
  | sounded tone failure => rfl
  | noted n => rfl
  | _ => cases he

theorem of_catchUp (hcaught : h.catchUp rig = some next) : h.Aside next := by
  obtain ⟨pacer, timers, ticks, -, rfl⟩ := catchUp_eq_some hcaught
  have hticked : h.Aside (h.ticked pacer timers) := ⟨⟨rfl, rfl⟩, rfl, .refl _ _⟩
  have hfollowed := hticked.trans (of_spoken (.followTone rig _))
  exact hfollowed.trans ⟨.refl _, rfl, .cons rfl⟩

theorem of_finish {ending : Ending} (hfinish : h.finish rig ending = .ended ending next) :
    h.Aside next := by
  have hsilenced : h.Aside (h.silence rig) := of_spoken (.silence rig h)
  obtain ⟨n, rfl⟩ := exists_note_of_finish hfinish
  exact hsilenced.trans (note _ _)

theorem recordAll (h : Host) {es : List Event} (hes : ∀ e ∈ es, e.offScreen) :
    h.Aside (es.foldl record h) := by
  apply List.foldlRecOn es record (refl h)
  intro next hnext e he
  exact hnext.trans ⟨.refl _, rfl, .cons (hes e he)⟩

theorem noteStep (h : Host) : h.Aside (h.noteAll (Notice.ofStep h.machine)) :=
  (keptByPoll h).noteAll (fun _ hn => Event.quiet_of_plain (Event.plain_of_mem_ofStep hn)) (refl h)

theorem step (h : Host) (hpaints : ¬ h.machine.Paints) : h.Aside h.step.1 := by
  have hscreen : (h.noteAll (Notice.ofStep h.machine)).machine.SameScreen h.machine.step.1 := by
    rw [noteAll_machine]
    exact .step hpaints
  rw [step_eq]
  exact ((noteStep h).trans (machine _ hscreen)).trans
    (recordAll _ fun e he => Event.offScreen_of_mem_executions hpaints he)

/-- A step that does not advance leaves the screen alone, even if it should have painted. -/
theorem of_step {outcome : Outcome} (hstep : h.step = (next, outcome)) (hstays : outcome ≠ .advanced) :
    h.Aside next := by
  by_cases hpaints : h.machine.Paints
  · obtain ⟨f, hfault⟩ | ⟨hadvanced, -⟩ := Machine.step_of_paints hpaints
    · have hnone : executions h.machine (.faulted f) = [] := by
        unfold executions
        split
        · rfl
        · cases h.machine.fetch <;> rfl
      rw [step_eq, hfault, hnone, Prod.mk.injEq] at hstep
      obtain ⟨rfl, -⟩ := hstep
      refine (noteStep h).trans (machine _ ?_)
      rw [noteAll_machine]
      exact .refl _
    · rw [step_eq, Prod.mk.injEq, hadvanced] at hstep
      exact absurd hstep.2.symm hstays
  · have haside := step h hpaints
    rw [hstep] at haside
    exact haside

end Aside

/-! ### Frames that are owed -/

/-- The frames since `entry`, with those that are owed, are one more than the paintings. -/
structure Tallies (entry : Host) (owed : Nat) (events : List Stamped) (now : Host) : Prop where
  history : now.history = events ++ entry.history
  frames : now.frames = entry.frames + (shown events).length
  count : (shown events).length + owed = paintings events + 1

/-- Whether the last frame since `entry` is the screen as it is, and no frame is owed. -/
def ShowsScreen (entry now : Host) : Prop :=
  ∃ events, entry.Tallies 0 events now ∧ now.machine.stale = false ∧
    (shown events).head? = some now.machine.screen

/-- Whether a frame is owed. -/
def OwesFrame (entry now : Host) : Prop := ∃ events, entry.Tallies 1 events now

section Frames

variable {rig : Rig} {entry now next : Host} {events : List Stamped} {owed : Nat}

theorem Tallies.aside (hnow : entry.Tallies owed events now) (haside : now.Aside next) :
    ∃ new, entry.Tallies owed (new ++ events) next ∧ shown (new ++ events) = shown events := by
  obtain ⟨new, hnew, hoff⟩ := haside.history
  have hshown := shown_append hoff events
  have hpaintings := paintings_append hoff events
  refine ⟨new, ⟨?_, ?_, ?_⟩, hshown⟩
  · rw [hnew, hnow.history, List.append_assoc]
  · rw [haside.frames, hnow.frames, hshown]
  · rw [hshown, hpaintings, hnow.count]

theorem ShowsScreen.aside (hnow : entry.ShowsScreen now) (haside : now.Aside next) :
    entry.ShowsScreen next := by
  obtain ⟨events, htallies, hstale, hlast⟩ := hnow
  obtain ⟨new, hnext, hshown⟩ := htallies.aside haside
  refine ⟨new ++ events, hnext, haside.screen.stale.trans hstale, ?_⟩
  rw [hshown, hlast, haside.screen.screen]

theorem OwesFrame.aside (hnow : entry.OwesFrame now) (haside : now.Aside next) :
    entry.OwesFrame next := by
  obtain ⟨events, htallies⟩ := hnow
  obtain ⟨new, hnext, -⟩ := htallies.aside haside
  exact ⟨new ++ events, hnext⟩

/-- A frame that is owed is shown, or its draw fails. -/
theorem OwesFrame.present (hnow : entry.OwesFrame now) {failure : Option String}
    (hpresent : now.present rig = (next, failure)) :
    (failure = none ∧ entry.ShowsScreen next) ∨
      ∃ reason, failure = some reason ∧ rig.draw next.frames = .error reason ∧ entry.OwesFrame next := by
  obtain ⟨events, hhistory, hframes, hcount⟩ := hnow
  unfold Host.present draw at hpresent
  split at hpresent
  · next reason hdraw =>
    cases hpresent
    exact .inr ⟨reason, rfl, hdraw, events, hhistory, hframes, hcount⟩
  · next cost hdraw =>
    cases hpresent
    refine .inl ⟨rfl, _ :: events, ⟨congrArg (_ :: ·) hhistory, ?_, hcount⟩, rfl, rfl⟩
    exact congrArg (· + 1) hframes

/-- A step that paints leaves a stale screen, for which a frame is owed. -/
theorem ShowsScreen.paint (hnow : entry.ShowsScreen now) (hpaints : now.machine.Paints)
    (hstep : now.step = (next, .advanced)) : next.machine.stale ∧ entry.OwesFrame next := by
  obtain ⟨events, htallies, -⟩ := hnow
  obtain ⟨new, ⟨hhistory, hframes, hcount⟩, -⟩ := htallies.aside (Aside.noteStep now)
  rw [step_eq] at hstep
  obtain ⟨f, hfault⟩ | ⟨hadvanced, hstale⟩ := Machine.step_of_paints hpaints
  · simp [hfault] at hstep
  · obtain ⟨w, hwaiting, hfetch, hw⟩ := hpaints
    have hexecuted : executions now.machine now.machine.step.2 =
        [.executed now.machine.pc (.ofWord w)] := by
      simp [executions, hwaiting, hfetch, hadvanced]
    rw [hexecuted, Prod.mk.injEq] at hstep
    obtain ⟨rfl, -⟩ := hstep
    refine ⟨hstale, _ :: (new ++ events), congrArg (_ :: ·) hhistory, hframes, ?_⟩
    have hpainted (time : Nat) : paintings (⟨time, .executed now.machine.pc (.ofWord w)⟩ ::
        (new ++ events)) = paintings (new ++ events) + 1 := List.countP_cons_of_pos hw
    rw [hpainted]
    exact congrArg (· + 1) hcount

theorem ShowsScreen.advance (hnow : entry.ShowsScreen now) (hstep : now.step = (next, .advanced)) :
    entry.ShowsScreen next ∨ next.machine.stale ∧ entry.OwesFrame next := by
  by_cases hpaints : now.machine.Paints
  · exact .inr (hnow.paint hpaints hstep)
  · have haside := Aside.step now hpaints
    rw [hstep] at haside
    exact .inl (hnow.aside haside)

/-! ### A run -/

/-- How the frames since `entry` stand when a run ends: all are shown, or the last draw has failed. -/
def Presented (rig : Rig) (entry : Host) (ending : Ending) (now : Host) : Prop :=
  entry.ShowsScreen now ∨
    ∃ reason, ending = .failed (.terminal reason) ∧ rig.draw now.frames = .error reason ∧
      entry.OwesFrame now

/-- The course of a run: a frame is owed only from when an instruction has painted until it is shown. -/
def frameCourse (rig : Rig) (entry : Host) : Course where
  steady := entry.ShowsScreen
  behind now := entry.ShowsScreen now ∨ now.machine.stale ∧ entry.OwesFrame now
  atEnd := entry.Presented rig
  stalls := True

/-- The redraw of a host that is behind, after its timers have been brought up to date. -/
theorem redraw_of_behind {caught : Host} {failure : Option String}
    (hbehind : (frameCourse rig entry).behind now) (hcaught : now.catchUp rig = some caught)
    (hredraw : caught.redraw rig = (next, failure)) :
    (failure = none ∧ entry.ShowsScreen next) ∨
      ∃ reason, failure = some reason ∧ rig.draw next.frames = .error reason ∧ entry.OwesFrame next := by
  have haside := Aside.of_catchUp hcaught
  unfold Host.redraw at hredraw
  rcases hbehind with hshows | ⟨hstale, howes⟩
  · have hshows' := hshows.aside haside
    obtain ⟨-, -, hstale, -⟩ := hshows'
    rw [hstale, if_neg Bool.false_ne_true] at hredraw
    cases hredraw
    exact .inl ⟨rfl, hshows.aside haside⟩
  · rw [haside.screen.stale, if_pos hstale] at hredraw
    exact (howes.aside haside).present hredraw

theorem kept_frameCourse (rig : Rig) (entry : Host) : (frameCourse rig entry).Kept rig where
  await _ hnow := hnow.aside (.note _ _)
  elapse time hnow := hnow.aside (.elapse _ time)
  abandon hnow := hnow.aside (.machine _ ⟨rfl, rfl⟩)
  advance hnow hstep := hnow.advance hstep
  stay hnow hstep hstays := hnow.aside (.of_step hstep hstays)
  lag hnow := .inl hnow
  stall _ _ := trivial
  shown hbehind hcaught hredraw := by
    obtain ⟨-, hshows⟩ | ⟨reason, hfailed, -⟩ := redraw_of_behind hbehind hcaught hredraw
    · exact hshows
    · cases hfailed
  lost hbehind hcaught hredraw := by
    obtain ⟨hnone, -⟩ | ⟨_, hfailed, hdraw, howes⟩ := redraw_of_behind hbehind hcaught hredraw
    · cases hnone
    · cases hfailed
      exact .inr ⟨_, rfl, hdraw, howes⟩
  stop _ hnow := .inl hnow
  finish hend hfinish := by
    have haside := Aside.of_finish hfinish
    rcases hend with hshows | ⟨reason, hending, hdraw, howes⟩
    · exact .inl (hshows.aside haside)
    · exact .inr ⟨reason, hending, haside.frames ▸ hdraw, howes.aside haside⟩

/-- When a run ends, for whatever reason, every change of the screen has been shown, each once: there
is one frame more than there were instructions that changed the screen, and the last one is the screen as
it is. If a draw has failed, it is that frame that is missing. -/
theorem run_shows_screen {rig : Rig} {entry now : Host} {limit : Option Nat} {polls left : List Poll}
    {ending : Ending}
    (hrun : (Call.run limit).perform rig entry polls = (.ended ending now, left)) :
    ∃ events, now.history = events ++ entry.history ∧
      now.frames = entry.frames + (shown events).length ∧
      (((shown events).length = paintings events + 1 ∧
          (shown events).head? = some now.machine.screen) ∨
        ((∃ reason, ending = .failed (.terminal reason) ∧ rig.draw now.frames = .error reason) ∧
          (shown events).length = paintings events)) := by
  have hkept := kept_frameCourse rig entry
  have hopened : entry.OwesFrame (entry.opened rig) := ⟨[_], rfl, rfl, rfl⟩
  have hstart : ((Call.run limit).start rig entry).On (frameCourse rig entry) := by
    apply hkept.startRun limit
    · intro next hpresent
      obtain ⟨-, hshows⟩ | ⟨reason, hfailed, -⟩ := hopened.present hpresent
      · exact hshows
      · cases hfailed
    · intro next reason hpresent
      obtain ⟨hnone, -⟩ | ⟨_, hfailed, hdraw, howes⟩ := hopened.present hpresent
      · cases hnone
      · cases hfailed
        exact .inr ⟨_, rfl, hdraw, howes⟩
  have hend := hkept.feed (fun h poll hh => hh.aside (.poll h poll)) polls hstart
  rw [← Call.perform, hrun] at hend
  obtain ⟨events, htallies, -, hlast⟩ | ⟨reason, hending, hdraw, events, htallies⟩ := hend
  · exact ⟨events, htallies.history, htallies.frames, .inl ⟨htallies.count, hlast⟩⟩
  · exact ⟨events, htallies.history, htallies.frames,
      .inr ⟨⟨reason, hending, hdraw⟩, Nat.succ.inj htallies.count⟩⟩

end Frames

/-- A host whose program clears the screen, draws a digit, waits for a key and returns from nowhere. -/
def scribbling : Host :=
  new (.holding [0x00, 0xE0, 0xD0, 0x15, 0xF0, 0x0A, 0x00, 0xEE]) (.ofLayout .conventional) 60 0

def scribblingPolls : List Poll :=
  [[], [], [], [], [.down 7], []].map fun es => .answered 0 (.events es)

def faultsAfterTwo (ending : Ending) (now : Host) : Bool :=
  paintings now.history == 2 && match ending with
    | .failed (.fault _) => true
    | _ => false

/-- The first frame and one for each change are shown before the fault. -/
theorem scribbling_shown :
    ∃ ending now left,
      (Call.run none).perform .steady scribbling scribblingPolls = (.ended ending now, left) ∧
        faultsAfterTwo ending now ∧
        (shown now.history).length = 3 ∧ (shown now.history).head? = some now.machine.screen := by
  have hfaults : ((Call.run none).perform .steady scribbling scribblingPolls).1.ends faultsAfterTwo := by
    decide +kernel
  generalize hrun : (Call.run none).perform .steady scribbling scribblingPolls = run at hfaults ⊢
  obtain ⟨stage, left⟩ := run
  obtain ⟨ending, now, rfl, hending⟩ := Stage.exists_of_ends hfaults
  obtain ⟨events, hhistory, -, hshown⟩ := run_shows_screen hrun
  have hnew : scribbling.history = [] := rfl
  rw [hnew, List.append_nil] at hhistory
  subst hhistory
  refine ⟨ending, now, left, rfl, hending, ?_⟩
  obtain ⟨hcount, hlast⟩ | ⟨⟨reason, -, hdraw⟩, -⟩ := hshown
  · simp only [faultsAfterTwo, Bool.and_eq_true, beq_iff_eq] at hending
    exact ⟨hcount.trans (congrArg (· + 1) hending.1), hlast⟩
  · cases hdraw

end Host

end Chip8Console
