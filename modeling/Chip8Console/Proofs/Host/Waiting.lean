import Chip8Console.Proofs.Host.Hearing
import Chip8Console.Proofs.Host.Service

/-!
# Waiting for a key on its own

A wait goes from poll to poll. A poll that brings nothing but keys going up leaves the wait as it was, but for
those keys, the timers and what is on the screen. The first poll that brings anything else ends it: with a
wish to stop the wait is cancelled, and otherwise it is answered by the first key that goes down. A key that
goes down before a wish to stop fills the register although the wait is cancelled.

After a poll that has not ended the wait, the timers are serviced. That has no end if their period is zero,
and then the wait has none, whatever the next polls bring.
-/

namespace Chip8Console

namespace Poll

def events : Poll → List KeyEvent
  | .answered _ (.events es) => es
  | .answered _ (.strokes _) | .lost _ => []

/-- Whether a poll brings events that are all keys going up, or none at all. -/
def quiet : Poll → Bool
  | .answered _ (.events es) => es.all KeyEvent.isUp
  | .answered _ (.strokes _) | .lost _ => false

theorem exists_of_quiet {poll : Poll} (h : poll.quiet) :
    ∃ cost es, poll = .answered cost (.events es) ∧ es.all KeyEvent.isUp := by
  cases poll with
  | lost reason => cases h
  | answered cost arrival =>
      cases arrival with
      | events es => exact ⟨cost, es, rfl, h⟩
      | strokes ks => cases h

end Poll

namespace Host

variable {rig : Rig} {entry h : Host} {x : Nibble}

theorem poll_events (h : Host) (cost : Nat) (es : List KeyEvent) :
    h.poll (.answered cost (.events es)) =
      (((h.asked cost).hear (untilQuit es)).1, if .quit ∈ es then .quit else .goOn) := by
  have hheard : h.hearing cost (.events es) = (h.asked cost).hear es := rfl
  rw [poll_answered, hheard, hear_eq]
  by_cases hquit : .quit ∈ es <;> simp [hquit]

/-- What a host shows, and what it makes of the timers, changes nothing else of its machine. -/
structure Tends (h next : Host) : Prop where
  machine : next.machine =
    { h.machine with timers := next.machine.timers, stale := next.machine.stale }
  polls : next.polls = h.polls
  period : next.pacer.period = h.pacer.period

/-- A display that works shows the screen when it is asked to. -/
theorem exists_redraw (hdraws : ∀ n, ∃ cost, rig.draw n = .ok cost) (h : Host) :
    ∃ shown, h.redraw rig = (shown, none) ∧ h.Tends shown := by
  obtain ⟨cost, hcost⟩ := hdraws h.frames
  have hpresent : (h.present rig).2 = none ∧ h.Tends (h.present rig).1 := by
    unfold Host.present Host.draw
    dsimp only
    rw [hcost]
    exact ⟨rfl, rfl, rfl, rfl⟩
  unfold Host.redraw
  split
  · exact ⟨_, Prod.ext rfl hpresent.1, hpresent.2⟩
  · exact ⟨h, rfl, rfl, rfl, rfl⟩

theorem exists_catchUp (rig : Rig) (hpos : 0 < h.pacer.period) :
    ∃ caught, h.catchUp rig = some caught ∧ h.Tends caught := by
  have hends : h.catchUp rig ≠ none := catchUp_ne_none hpos
  obtain ⟨caught, hcaught⟩ := Option.ne_none_iff_exists'.1 hends
  have hserviced := serviced_of_catchUp hpos hcaught
  refine ⟨caught, hcaught, ?_, ?_, ?_⟩
  · rw [hserviced.machine]
  · obtain ⟨pacer, timers, ticks, -, rfl⟩ := catchUp_eq_some hcaught
    exact (Spoken.followTone rig (h.ticked pacer timers)).polls
  · rw [hserviced.pacer]

/-- A wait that a poll has not ended goes on if the timers have a period. -/
theorem exists_stayWaiting (hdraws : ∀ n, ∃ cost, rig.draw n = .ok cost) (hpos : 0 < h.pacer.period)
    (x : Nibble) :
    ∃ next, h.stayWaiting rig x none = .running (.waiting x none) next ∧ h.Tends next := by
  obtain ⟨caught, hcaught, htimed⟩ := h.exists_catchUp rig hpos
  obtain ⟨shown, hredraw, hshown⟩ := caught.exists_redraw hdraws
  refine ⟨shown.elapse shown.pacer.period, ?_, ?_, ?_, ?_⟩
  · unfold stayWaiting
    rw [hcaught]
    dsimp only
    rw [hredraw]
  · show shown.machine = _
    rw [hshown.machine, htimed.machine]
    rfl
  · exact hshown.polls.trans htimed.polls
  · exact hshown.period.trans htimed.period

/-- A host that has waited for a key since it was at `entry`, through polls that did not end the wait. -/
structure HasWaited (entry : Host) (taken : List Poll) (h : Host) : Prop where
  machine : h.machine =
    { entry.machine with
      keys := h.machine.keys, timers := h.machine.timers, stale := h.machine.stale }
  keys : ∀ k, h.machine.keys.pressed k =
    levelAfter k (entry.machine.keys.pressed k) (taken.flatMap Poll.events)
  polls : h.polls = entry.polls + taken.length
  period : h.pacer.period = entry.pacer.period

namespace HasWaited

theorem begun (entry : Host) (n : Notice) : entry.HasWaited [] (entry.note n) :=
  ⟨rfl, fun _ => rfl, rfl, rfl⟩

theorem waiting {taken : List Poll} (hwaited : entry.HasWaited taken h) :
    h.machine.waiting = entry.machine.waiting := by
  rw [hwaited.machine]

/-- What becomes of a host that has waited when a poll brings events, before it does anything about them. -/
theorem polled {taken : List Poll} (hwaited : entry.HasWaited taken h)
    (hwaiting : entry.machine.waiting = some x) (cost : Nat) (es : List KeyEvent) :
    ∃ polled, h.poll (.answered cost (.events es)) = (polled, if .quit ∈ es then .quit else .goOn) ∧
      h.machine.Hears x (untilQuit es) polled.machine ∧
      polled.polls = entry.polls + taken.length + 1 ∧ polled.pacer.period = entry.pacer.period := by
  refine ⟨_, h.poll_events cost es, ?_, ?_, ?_⟩
  · exact Host.hears (h := h.asked cost) (hwaited.waiting.trans hwaiting) (quit_not_mem_untilQuit es)
  · rw [hear_polls, ← hwaited.polls]
    rfl
  · rw [← hwaited.period, ← (Quiet.poll h (.answered cost (.events es))).pacer, poll_events]

theorem tends {taken : List Poll} (hwaited : entry.HasWaited taken h) {next : Host} (htends : h.Tends next) :
    entry.HasWaited taken next := by
  have hkeys : next.machine.keys = h.machine.keys := by rw [htends.machine]
  refine ⟨?_, fun k => ?_, htends.polls.trans hwaited.polls, htends.period.trans hwaited.period⟩
  · rw [htends.machine, hwaited.machine]
  · rw [hkeys, hwaited.keys]

/-- A quiet poll does not end a wait. -/
theorem resume_quiet (rig : Rig) {taken : List Poll} (hwaiting : entry.machine.waiting = some x)
    (hwaited : entry.HasWaited taken h) {poll : Poll} (hquiet : poll.quiet) :
    ∃ polled, h.resume rig (.waiting x none) poll = polled.stayWaiting rig x none ∧
      entry.HasWaited (taken ++ [poll]) polled := by
  obtain ⟨cost, es, rfl, hups⟩ := Poll.exists_of_quiet hquiet
  obtain ⟨polled, hpoll, hhears, hpolls, hperiod⟩ := hwaited.polled hwaiting cost es
  have hquit := quit_not_mem_of_isUp hups
  have hnone := firstDown?_eq_none_of_isUp hups
  rw [if_neg hquit] at hpoll
  rw [untilQuit_eq_self hquit] at hhears
  have hmachine := hhears.of_firstDown?_eq_none (hwaited.waiting.trans hwaiting) hnone
  have hwaits : polled.machine.waiting = some x := (hhears.unfilled hnone).1
  refine ⟨polled, ?_, ?_, fun k => ?_, ?_, hperiod⟩
  · simp only [resume, hpoll, hwaits, Option.isNone_some, Bool.false_eq_true, if_false]
  · rw [hmachine, hwaited.machine]
  · rw [hhears.keys, hwaited.keys, List.flatMap_append, levelAfter_append]
    simp [Poll.events]
  · rw [hpolls, List.length_append]
    rfl

/-- Quiet polls do not end a wait, and if the timers have a period it goes on behind them. -/
theorem feed_quiet (hdraws : ∀ n, ∃ cost, rig.draw n = .ok cost) (hpos : 0 < entry.pacer.period)
    (hwaiting : entry.machine.waiting = some x) {quiet : List Poll} (hquiet : ∀ poll ∈ quiet, poll.quiet)
    {taken : List Poll} (hwaited : entry.HasWaited taken h) (polls : List Poll) :
    ∃ next, (Stage.running (.waiting x none) h).feed rig (quiet ++ polls) =
        (Stage.running (.waiting x none) next).feed rig polls ∧
      entry.HasWaited (taken ++ quiet) next := by
  induction quiet generalizing taken h with
  | nil => exact ⟨h, rfl, by rwa [List.append_nil]⟩
  | cons poll quiet ih =>
      rw [List.forall_mem_cons] at hquiet
      obtain ⟨polled, hresume, hpolled⟩ := hwaited.resume_quiet rig hwaiting hquiet.1
      obtain ⟨later, hstays, htends⟩ := exists_stayWaiting hdraws (hpolled.period ▸ hpos) x
      obtain ⟨next, hfeed, hnext⟩ := ih hquiet.2 (hpolled.tends htends)
      refine ⟨next, ?_, ?_⟩
      · rw [List.cons_append, Stage.feed, hresume, hstays]
        exact hfeed
      · rwa [List.append_assoc] at hnext

/-- If the timers have no period, one quiet poll is the end of it. -/
theorem feed_stalls (rig : Rig) (hzero : entry.pacer.period = 0) (hwaiting : entry.machine.waiting = some x)
    {taken : List Poll} (hwaited : entry.HasWaited taken h) {poll : Poll} (hquiet : poll.quiet)
    (polls : List Poll) :
    (Stage.running (.waiting x none) h).feed rig (poll :: polls) = (.stalled, polls) := by
  obtain ⟨polled, hresume, hpolled⟩ := hwaited.resume_quiet rig hwaiting hquiet
  have hstalls : polled.stayWaiting rig x none = .stalled := by
    unfold stayWaiting
    rw [catchUp_eq_none (hpolled.period.trans hzero)]
  rw [Stage.feed, hresume, hstalls, Stage.feed_stalled]

end HasWaited

/-- How a wait ends with a poll that brings some events, behind polls that have not ended it. -/
structure Concludes (entry : Host) (x : Nibble) (quiet : List Poll) (es : List KeyEvent) (ending : Ending)
    (now : Host) : Prop where
  cancelled : .quit ∈ es → ending = .cancelled
  pressed : .quit ∉ es → ∃ key, firstDown? es = some key ∧
    ending = .pressed (UInt8.ofNat (key.toNat % 16)) ∧ now.machine.v[x] = UInt8.ofNat (key.toNat % 16)
  /-- A key that goes down before a wish to stop fills the register of a wait that is cancelled, too. -/
  filled : ∀ key, firstDown? (untilQuit es) = some key →
    now.machine.v[x] = UInt8.ofNat (key.toNat % 16)
  unfilled : firstDown? (untilQuit es) = none → now.machine.v[x] = entry.machine.v[x]
  registers : ∀ k, k ≠ x → now.machine.v[k] = entry.machine.v[k]
  /-- What comes behind a wish to stop does not reach the keypad. -/
  keys : ∀ k, now.machine.keys.pressed k =
    levelAfter k (entry.machine.keys.pressed k) (quiet.flatMap Poll.events ++ untilQuit es)
  waiting : now.machine.waiting = none
  polls : now.polls = entry.polls + quiet.length + 1
  /-- The index, the counter, memory, the stack and the screen are as they were. -/
  others : now.machine =
    { entry.machine with
      v := now.machine.v, keys := now.machine.keys, waiting := now.machine.waiting
      timers := now.machine.timers, stale := now.machine.stale }

/-- Events that are not all keys going up end a wait. -/
theorem HasWaited.resume_decisive (rig : Rig) {quiet : List Poll} (hwaiting : entry.machine.waiting = some x)
    (hwaited : entry.HasWaited quiet h) (cost : Nat) {es : List KeyEvent}
    (hdecisive : es.all KeyEvent.isUp = false) :
    ∃ ending now, h.resume rig (.waiting x none) (.answered cost (.events es)) = .ended ending now ∧
      entry.Concludes x quiet es ending now := by
  obtain ⟨polled, hpoll, hhears, hpolls, -⟩ := hwaited.polled hwaiting cost es
  have hv : h.machine.v = entry.machine.v := by rw [hwaited.machine]
  have hkeys : ∀ k, polled.machine.keys.pressed k =
      levelAfter k (entry.machine.keys.pressed k) (quiet.flatMap Poll.events ++ untilQuit es) := fun k => by
    rw [hhears.keys, hwaited.keys, levelAfter_append]
  have hothers : polled.machine =
      { entry.machine with
        v := polled.machine.v, keys := polled.machine.keys, waiting := polled.machine.waiting
        timers := polled.machine.timers, stale := polled.machine.stale } := by
    have hfrom := hhears.others
    rw [hwaited.machine] at hfrom
    rw [hfrom]
  have hfilled := fun key hkey => (hhears.filled key hkey).2
  have hunfilled := fun hnone => hv ▸ (hhears.unfilled hnone).2
  have hregisters := fun k hk => hv ▸ hhears.registers k hk
  by_cases hquit : .quit ∈ es
  · rw [if_pos hquit] at hpoll
    refine ⟨.cancelled, { polled with machine := polled.machine.abandonWait }, ?_, ?_⟩
    · simp only [resume, hpoll, giveUp]
    · exact {
        cancelled := fun _ => rfl
        pressed := fun hnot => absurd hquit hnot
        filled := hfilled
        unfilled := hunfilled
        registers := hregisters
        keys := hkeys
        waiting := rfl
        polls := hpolls
        others := congrArg Machine.abandonWait hothers }
  · rw [if_neg hquit] at hpoll
    obtain ⟨key, hkey⟩ := exists_firstDown? hdecisive hquit
    have hheard : firstDown? (untilQuit es) = some key := by rwa [untilQuit_eq_self hquit]
    have hnone := (hhears.filled key hheard).1
    refine ⟨.pressed polled.machine.v[x], polled, ?_, ?_⟩
    · simp only [resume, hpoll, hnone, Option.isNone_none, if_true, answered]
    · exact {
        cancelled := fun hmem => absurd hmem hquit
        pressed := fun _ => ⟨key, hkey, by rw [hfilled key hheard], hfilled key hheard⟩
        filled := hfilled
        unfilled := hunfilled
        registers := hregisters
        keys := hkeys
        waiting := hnone
        polls := hpolls
        others := hothers }

/-- A wait that ends as it should, whatever comes behind some polls that do not end it. -/
def WaitsAsTold (rig : Rig) (entry : Host) (x : Nibble) (quiet : List Poll) : Prop :=
  (∀ (reason : String) (rest : List Poll), ∃ now,
    Call.wait.perform rig entry (quiet ++ .lost reason :: rest) =
        (.ended (.failed (.terminal reason)) now, rest) ∧
      now.machine.waiting = some x ∧ entry.HasWaited quiet now) ∧
  ∀ (cost : Nat) (es : List KeyEvent) (rest : List Poll), es.all KeyEvent.isUp = false →
    ∃ ending now,
      Call.wait.perform rig entry (quiet ++ .answered cost (.events es) :: rest) =
          (.ended ending now, rest) ∧
        entry.Concludes x quiet es ending now

theorem start_wait (rig : Rig) (hwaiting : entry.machine.waiting = some x) :
    Call.wait.start rig entry = .running (.waiting x none) (entry.note (.awaiting x)) := by
  simp only [Call.start, beginWait, hwaiting]

/-- Behind no polls at all, or with a period of the timers, a wait ends as it should. -/
theorem waitsAsTold {quiet : List Poll} (hdraws : ∀ n, ∃ cost, rig.draw n = .ok cost)
    (hwaiting : entry.machine.waiting = some x) (hquiet : ∀ poll ∈ quiet, poll.quiet)
    (hgoesOn : quiet = [] ∨ 0 < entry.pacer.period) : entry.WaitsAsTold rig x quiet := by
  have hbegun : entry.HasWaited [] (entry.note (.awaiting x)) := .begun entry _
  have hfeed : ∀ polls, ∃ next, Call.wait.perform rig entry (quiet ++ polls) =
      (Stage.running (.waiting x none) next).feed rig polls ∧ entry.HasWaited quiet next := fun polls => by
    rw [Call.perform, start_wait rig hwaiting]
    rcases hgoesOn with rfl | hpos
    · exact ⟨_, rfl, hbegun⟩
    · exact hbegun.feed_quiet hdraws hpos hwaiting hquiet polls
  constructor
  · intro reason rest
    obtain ⟨next, hperform, hwaited⟩ := hfeed (.lost reason :: rest)
    refine ⟨next, ?_, hwaited.waiting.trans hwaiting, hwaited⟩
    rw [hperform, Stage.feed]
    exact Stage.feed_ended rig _ next rest
  · intro cost es rest hdecisive
    obtain ⟨next, hperform, hwaited⟩ := hfeed (.answered cost (.events es) :: rest)
    obtain ⟨ending, now, hresume, hconcludes⟩ := hwaited.resume_decisive rig hwaiting cost hdecisive
    refine ⟨ending, now, ?_, hconcludes⟩
    rw [hperform, Stage.feed, hresume, Stage.feed_ended]

/-- Behind a quiet poll, and without a period of the timers, it does not end at all. -/
theorem not_waitsAsTold (hwaiting : entry.machine.waiting = some x) {poll : Poll} {quiet : List Poll}
    (hquiet : poll.quiet) (hzero : entry.pacer.period = 0) :
    ¬ entry.WaitsAsTold rig x (poll :: quiet) := by
  rintro ⟨hlost, -⟩
  obtain ⟨now, hperform, -⟩ := hlost "" []
  have hbegun : entry.HasWaited [] (entry.note (.awaiting x)) := .begun entry _
  rw [Call.perform, start_wait rig hwaiting, List.cons_append,
    hbegun.feed_stalls rig hzero hwaiting hquiet] at hperform
  cases hperform

/-- A wait ends with the first poll that brings a key going down or a wish to stop, and as that poll says; or
it fails with the first poll that fails, if that comes before. This is so just if the wait does not have to
get past a quiet poll, or the timers have a period. Without a wait, a call to wait asks for nothing. -/
theorem waitsAsTold_iff (hdraws : ∀ n, ∃ cost, rig.draw n = .ok cost) (entry : Host) :
    (∀ (x : Nibble) (quiet : List Poll), entry.machine.waiting = some x → (∀ poll ∈ quiet, poll.quiet) →
        (entry.WaitsAsTold rig x quiet ↔ quiet = [] ∨ 0 < entry.pacer.period)) ∧
      (entry.machine.waiting = none →
        ∀ polls, Call.wait.perform rig entry polls = (.ended .cancelled entry, polls)) := by
  constructor
  · intro x quiet hwaiting hquiet
    refine ⟨fun htold => ?_, waitsAsTold hdraws hwaiting hquiet⟩
    cases quiet with
    | nil => exact .inl rfl
    | cons poll quiet =>
        right
        apply Nat.pos_of_ne_zero
        intro hzero
        exact not_waitsAsTold hwaiting (hquiet poll List.mem_cons_self) hzero htold
  · intro hnone polls
    simp only [Call.perform, Call.start, beginWait, hnone, giveUp]
    exact Stage.feed_ended rig _ entry polls

def waitingAt (rate : UInt32) : Host :=
  new (Machine.holding [0xF0, 0x0A]).step.1 (.ofLayout .conventional) rate 0

theorem new_machine (machine : Machine) (keyboard : Keyboard) (timerRate : UInt32) (time : Nat) :
    (new machine keyboard timerRate time).machine = machine := rfl

theorem waitingAt_waiting (rate : UInt32) : (waitingAt rate).machine.waiting = some 0 := by
  rw [waitingAt, new_machine]
  decide +kernel

/-- Two polls without a key, and one with a key, a wish to stop, and another key. -/
theorem waitingAt_waits_as_told :
    ∃ now, Call.wait.perform .steady (waitingAt 60)
        [.answered 0 (.events []), .answered 5 (.events [.up 3]),
          .answered 0 (.events [.down 0x25, .quit, .down 7])] = (.ended .cancelled now, []) ∧
      now.machine.v[(0 : Nibble)] = 5 ∧ now.machine.holdsKey 7 = false ∧
      Call.wait.perform .steady now [.lost "input lost"] = (.ended .cancelled now, [.lost "input lost"]) := by
  have hdraws : ∀ n, ∃ cost, Rig.steady.draw n = .ok cost := fun _ => ⟨0, rfl⟩
  obtain ⟨hwait, -⟩ := waitsAsTold_iff hdraws (waitingAt 60)
  obtain ⟨-, htold⟩ := (hwait 0 [.answered 0 (.events []), .answered 5 (.events [.up 3])]
    (waitingAt_waiting 60) (by decide)).2 (.inr (by decide))
  obtain ⟨ending, now, hperform, hconcludes⟩ := htold 0 [.down 0x25, .quit, .down 7] [] (by decide)
  obtain ⟨-, hnone⟩ := waitsAsTold_iff hdraws now
  obtain rfl := hconcludes.cancelled (by decide)
  refine ⟨now, hperform, hconcludes.filled 0x25 (by decide), ?_, hnone hconcludes.waiting _⟩
  show now.machine.keys.pressed 7 = false
  rw [hconcludes.keys, waitingAt, new_machine]
  decide +kernel

/-- A host whose timers have no period does not get past the first quiet poll. -/
theorem hurried_wait_stalls :
    ¬ ∀ (rig : Rig) (entry : Host) (x : Nibble) (quiet : List Poll),
      (∀ n, ∃ cost, rig.draw n = .ok cost) → entry.machine.waiting = some x →
      (∀ poll ∈ quiet, poll.quiet) → entry.WaitsAsTold rig x quiet := by
  intro hclaim
  have hdraws : ∀ n, ∃ cost, Rig.steady.draw n = .ok cost := fun _ => ⟨0, rfl⟩
  have hzero : (waitingAt 1000000001).pacer.period = 0 := by decide
  have hquiet : (Poll.answered 0 (.events [])).quiet := rfl
  have htold := hclaim .steady (waitingAt 1000000001) 0 [.answered 0 (.events [])] hdraws
    (waitingAt_waiting 1000000001) (by decide)
  exact not_waitsAsTold (waitingAt_waiting 1000000001) hquiet hzero htold

end Host

end Chip8Console
