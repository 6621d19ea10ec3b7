import Chip8Console.Proofs.Host.Service
import Chip8Console.Proofs.Host.Session
import Chip8Console.Proofs.Machine.Action

/-!
# The rate of the timers

The timers are serviced at irregular times: after each instruction, and again and again while a key is
waited for. Between two services lie polls, draws and sleeps of any length, and each service is given the
time since the one before. The pieces join without a gap, so the ticks of a run depend on nothing but the
time it has taken: up to each service there have been as many as whole periods fit into the time since the
run began, with what was pending then.
-/

namespace Chip8Console

namespace Event

def ticks : Event → Nat
  | caughtUp ticks _ => ticks.toNat
  | _ => 0

theorem services_eq_false_of_spoken {e : Event} (h : e.spoken) : e.services = false := by
  cases e with
  | caughtUp ticks timers => cases h
  | _ => rfl

theorem ticks_eq_zero {e : Event} (h : e.services = false) : e.ticks = 0 := by
  cases e with
  | caughtUp ticks timers => cases h
  | _ => rfl

end Event

def ticksIn : List Stamped → Nat
  | [] => 0
  | s :: earlier => s.event.ticks + ticksIn earlier

/-- The time of the last service in a history, or of the beginning if there is none. -/
def servicedAt (began : Nat) : List Stamped → Nat
  | [] => began
  | s :: earlier => if s.event.services then s.time else servicedAt began earlier

theorem servicedAt_append {new : List Stamped} (hnew : ∀ s ∈ new, s.event.services = false)
    (began : Nat) (earlier : List Stamped) :
    servicedAt began (new ++ earlier) = servicedAt began earlier := by
  induction new with
  | nil => rfl
  | cons s new ih =>
      obtain ⟨hs, hrest⟩ := List.forall_mem_cons.1 hnew
      simp only [List.cons_append, servicedAt, hs]
      exact ih hrest

namespace Host

/-- The time that the timers of a host have to count by some later time, with what is pending now. -/
def timeOwed (h : Host) (time : Nat) : Nat := h.pacer.pending + (time - h.clock)

def ticksDue (h : Host) (time : Nat) : Nat := h.timeOwed time / h.pacer.period

/-- Whether no service since `entry` has to release more ticks than a 32-bit word can count. -/
def Countable (entry : Host) : List Stamped → Prop
  | [] => True
  | s :: earlier =>
    (s.event.services →
      entry.ticksDue s.time - entry.ticksDue (servicedAt entry.clock earlier) < 4294967296) ∧
    entry.Countable earlier

instance decidableCountable (entry : Host) : DecidablePred entry.Countable
  | [] => .isTrue trivial
  | s :: earlier =>
    have := decidableCountable entry earlier
    inferInstanceAs (Decidable ((s.event.services →
      entry.ticksDue s.time - entry.ticksDue (servicedAt entry.clock earlier) < 4294967296) ∧
      entry.Countable earlier))

/-- Whether each service since `entry` has released the ticks due since the one before, as far as a 32-bit
word can count them. -/
def OnTime (entry : Host) : List Stamped → Prop
  | [] => True
  | s :: earlier =>
    (s.event.services → servicedAt entry.clock earlier ≤ s.time ∧
      s.event.ticks =
        (entry.ticksDue s.time - entry.ticksDue (servicedAt entry.clock earlier)) % 4294967296) ∧
    entry.OnTime earlier

theorem timeOwed_add {h : Host} {time later : Nat} (hbegan : h.clock ≤ time) (hlater : time ≤ later) :
    h.timeOwed later = h.timeOwed time + (later - time) := by
  unfold timeOwed
  omega

theorem ticksDue_mono (h : Host) {time later : Nat} (hlater : time ≤ later) :
    h.ticksDue time ≤ h.ticksDue later := by
  apply Nat.div_le_div_right
  unfold timeOwed
  omega

/-- What a service releases that finds the rest of one before it and the time since then. -/
theorem ticksDue_sub {h : Host} {time later : Nat} (hpos : 0 < h.pacer.period) (hbegan : h.clock ≤ time)
    (hlater : time ≤ later) :
    (h.timeOwed time % h.pacer.period + (later - time)) / h.pacer.period =
      h.ticksDue later - h.ticksDue time := by
  have hperiods := periods_add hpos (h.timeOwed time) (later - time)
  rw [ticksDue, ticksDue, timeOwed_add hbegan hlater]
  exact (Nat.sub_eq_of_eq_add' hperiods.symm).symm

/-- Nothing is due when a host is entered that holds less than a period. -/
theorem ticksDue_clock {h : Host} (hpending : h.pacer.pending < h.pacer.period) :
    h.ticksDue h.clock = 0 := by
  apply Nat.div_eq_of_lt
  unfold timeOwed
  omega

namespace OnTime

variable {entry : Host} {events : List Stamped}

theorem append {new : List Stamped} (hnew : ∀ s ∈ new, s.event.services = false)
    (htime : entry.OnTime events) : entry.OnTime (new ++ events) := by
  induction new with
  | nil => exact htime
  | cons s new ih =>
      obtain ⟨hs, hrest⟩ := List.forall_mem_cons.1 hnew
      exact ⟨fun hservices => absurd hservices (by simp [hs]), ih hrest⟩

theorem suffix {earlier : List Stamped} (htime : entry.OnTime events) (hsuffix : earlier <:+ events) :
    entry.OnTime earlier := by
  obtain ⟨later, rfl⟩ := hsuffix
  induction later with
  | nil => exact htime
  | cons s later ih => exact ih htime.2

theorem clock_le (htime : entry.OnTime events) : entry.clock ≤ servicedAt entry.clock events := by
  induction events with
  | nil => exact Nat.le_refl _
  | cons s earlier ih =>
      rw [servicedAt]
      split
      · next hservices => exact Nat.le_trans (ih htime.2) (htime.1 hservices).1
      · exact ih htime.2

/-- What the services release adds up to what is due by the last of them. -/
theorem ticksIn_eq (hpending : entry.pacer.pending < entry.pacer.period) (htime : entry.OnTime events)
    (hcountable : entry.Countable events) :
    ticksIn events = entry.ticksDue (servicedAt entry.clock events) := by
  induction events with
  | nil => exact (ticksDue_clock hpending).symm
  | cons s earlier ih =>
      have hearlier := ih htime.2 hcountable.2
      rw [ticksIn, servicedAt, hearlier]
      split
      · next hservices =>
        obtain ⟨hafter, hticks⟩ := htime.1 hservices
        have hmono := entry.ticksDue_mono hafter
        rw [hticks, Nat.mod_eq_of_lt (hcountable.1 hservices)]
        omega
      · next hservices =>
        rw [Event.ticks_eq_zero (Bool.eq_false_iff.2 hservices), Nat.zero_add]

end OnTime

theorem calm_of_finish {rig : Rig} {h next : Host} {ending : Ending}
    (hfinish : h.finish rig ending = .ended ending next) :
    next.clock = h.clock ∧ next.pacer = h.pacer ∧ next.timersAt = h.timersAt ∧
      Adds (fun e => !e.services) h.history next.history := by
  have hspoken := Spoken.silence rig h
  have hsilenced : Adds (fun e => !e.services) h.history (h.silence rig).history := by
    apply hspoken.history.mono
    intro e he
    simpa using Event.services_eq_false_of_spoken he
  obtain ⟨n, rfl⟩ := exists_note_of_finish hfinish
  exact ⟨hspoken.clock, hspoken.pacer, hspoken.timersAt, hsilenced.trans (.cons rfl)⟩

/-! ## A run -/

/-- What a run that was entered in some state keeps up: the pacer holds what the last service has left. -/
structure KeepsTime (entry : Host) (events : List Stamped) (now : Host) : Prop where
  history : now.history = events ++ entry.history
  period : now.pacer.period = entry.pacer.period
  pending : now.pacer.pending = entry.timeOwed (servicedAt entry.clock events) % entry.pacer.period
  timersAt : now.timersAt = servicedAt entry.clock events
  timersAt_le : now.timersAt ≤ now.clock
  onTime : entry.OnTime events

namespace KeepsTime

variable {rig : Rig} {entry now next : Host} {events : List Stamped}

theorem begin (hpending : entry.pacer.pending < entry.pacer.period) :
    entry.KeepsTime [] { entry with timersAt := entry.clock } where
  history := rfl
  period := rfl
  pending := by
    rw [servicedAt, timeOwed, Nat.sub_self, Nat.add_zero, Nat.mod_eq_of_lt hpending]
  timersAt := rfl
  timersAt_le := Nat.le_refl _
  onTime := trivial

/-- Nothing but a service takes a part in it. -/
theorem calm (hnow : entry.KeepsTime events now) (hpacer : next.pacer = now.pacer)
    (htimersAt : next.timersAt = now.timersAt) (hclock : now.clock ≤ next.clock)
    (hhistory : Adds (fun e => !e.services) now.history next.history) :
    ∃ events, entry.KeepsTime events next := by
  obtain ⟨new, hnew, hcalm⟩ := hhistory
  have hservices : ∀ s ∈ new, s.event.services = false := fun s hs => by simpa using hcalm s hs
  have hserviced := servicedAt_append hservices entry.clock events
  refine ⟨new ++ events, ?_, ?_, ?_, ?_, ?_, hnow.onTime.append hservices⟩
  · rw [hnew, hnow.history, List.append_assoc]
  · rw [hpacer, hnow.period]
  · rw [hpacer, hnow.pending, hserviced]
  · rw [htimersAt, hnow.timersAt, hserviced]
  · rw [htimersAt]
    exact Nat.le_trans hnow.timersAt_le hclock

theorem quiet (hnow : entry.KeepsTime events now) (hquiet : now.Quiet next) :
    ∃ events, entry.KeepsTime events next := by
  apply hnow.calm hquiet.pacer hquiet.timersAt hquiet.clock
  apply hquiet.history.mono
  intro e he
  cases e with
  | caughtUp ticks timers => cases he
  | _ => rfl

theorem serviced (hpos : 0 < entry.pacer.period) (hnow : entry.KeepsTime events now)
    (hcaught : now.catchUp rig = some next) : ∃ events, entry.KeepsTime events next := by
  have hbegan := hnow.onTime.clock_le
  have hafter := hnow.timersAt_le
  have hserviced := serviced_of_catchUp (hnow.period ▸ hpos) hcaught
  rw [hnow.timersAt] at hafter
  rw [hnow.pending, hnow.period, hnow.timersAt, ticksDue_sub hpos hbegan hafter] at hserviced
  obtain ⟨-, -, hpacer, hclock, htimersAt, told, ⟨new, rfl, hspoken⟩, hhistory⟩ := hserviced
  have hcalm : ∀ s ∈ new, s.event.services = false := by
    intro s hs
    exact Event.services_eq_false_of_spoken (hspoken s hs)
  have hearlier := servicedAt_append hcalm entry.clock events
  have hpast : new ++ now.history = new ++ events ++ entry.history := by
    rw [hnow.history, List.append_assoc]
  rw [hpast] at hhistory
  refine ⟨_ :: (new ++ events), ⟨hhistory, ?_, ?_, htimersAt, ?_, ?_, hnow.onTime.append hcalm⟩⟩
  · rw [hpacer, hnow.period]
  · rw [hpacer, hnow.pending, hnow.period, hnow.timersAt, Nat.mod_add_mod, ← timeOwed_add hbegan hafter]
    rfl
  · exact Nat.le_of_eq (htimersAt.trans hclock.symm)
  · intro _
    rw [hearlier]
    exact ⟨hafter, UInt32.toNat_ofNat'⟩

/-- A run stays on a course on which it keeps time, and its timers come to rest. -/
theorem kept_course (rig : Rig) (hpos : 0 < entry.pacer.period) :
    (Course.throughout (fun now => ∃ events, entry.KeepsTime events now) False).Kept rig := by
  apply Course.kept_throughout
  · intro now next hquiet hnow
    obtain ⟨events, hnow⟩ := hnow
    exact hnow.quiet hquiet
  · intro now hnow hcaught
    obtain ⟨events, hnow⟩ := hnow
    exact catchUp_ne_none (hnow.period ▸ hpos) hcaught
  · intro now next hnow hcaught
    obtain ⟨events, hnow⟩ := hnow
    exact hnow.serviced hpos hcaught
  · intro now next ending hnow hfinish
    obtain ⟨events, hnow⟩ := hnow
    obtain ⟨hclock, hpacer, htimersAt, hhistory⟩ := calm_of_finish hfinish
    exact hnow.calm hpacer htimersAt (Nat.le_of_eq hclock.symm) hhistory

theorem perform_run (rig : Rig) (hpos : 0 < entry.pacer.period)
    (hpending : entry.pacer.pending < entry.pacer.period) (limit : Option Nat) (polls : List Poll) :
    ((Call.run limit).perform rig entry polls).1.On
      (.throughout (fun now => ∃ events, entry.KeepsTime events now) False) := by
  have hkept := kept_course rig hpos
  have hopened : ∃ events, entry.KeepsTime events (entry.opened rig) :=
    (begin hpending).quiet (.record _ rfl)
  have hpresented {drawn : Host} {failure : Option String}
      (hpresent : (entry.opened rig).present rig = (drawn, failure)) :
      ∃ events, entry.KeepsTime events drawn := by
    obtain ⟨events, hnow⟩ := hopened
    exact hnow.quiet (.of_present hpresent)
  apply hkept.feed _ polls
  · exact hkept.startRun limit (fun _ hpresent => hpresented hpresent) fun _ _ hpresent =>
      hpresented hpresent
  · intro now poll hnow
    obtain ⟨events, hnow⟩ := hnow
    exact hnow.quiet (.poll now poll)

end KeepsTime

/-- The ticks of a run do not depend on how often and when the timers are serviced. However long
instructions, polls, draws and key waits take, the timers have had, at each service, one tick for every
whole period since the run began, with what was pending then, and the rest is pending. -/
theorem run_keeps_time (rig : Rig) {entry : Host} {rate : UInt32} (hrate : rate.toNat ≤ 1000000000)
    (hperiod : entry.pacer.period = periodOf rate) (hpending : entry.pacer.pending < periodOf rate)
    (limit : Option Nat) (polls : List Poll) :
    let run := ((Call.run limit).perform rig entry polls).1
    (∀ h next : Host, h.pacer.period = periodOf rate → h.catchUp rig = some next →
        ∃ ticks, h.Serviced ticks next) ∧
      run ≠ .stalled ∧
      run.Holds fun now => ∃ events, now.history = events ++ entry.history ∧
        now.pacer.pending = entry.timeOwed (servicedAt entry.clock events) % periodOf rate ∧
        ∀ service earlier, service :: earlier <:+ events → service.event.services →
          entry.clock ≤ service.time ∧
            (entry.Countable (service :: earlier) →
              ticksIn (service :: earlier) = entry.timeOwed service.time / periodOf rate) := by
  have hpos : 0 < entry.pacer.period := hperiod ▸ periodOf_pos hrate
  rw [← hperiod] at hpending ⊢
  have hrun := KeepsTime.perform_run rig hpos hpending limit polls
  generalize ((Call.run limit).perform rig entry polls).1 = run at hrun ⊢
  refine ⟨fun h next hh hcaught => ⟨_, serviced_of_catchUp (hh ▸ hpos) hcaught⟩, ?_, ?_⟩
  · rintro rfl
    exact hrun
  · have hholds : run.Holds fun now => ∃ events, entry.KeepsTime events now := by
      cases run with
      | running phase now => exact hrun
      | ended ending now => exact hrun
      | stalled => exact hrun.elim
    apply hholds.mono
    rintro now ⟨events, hnow⟩
    refine ⟨events, hnow.history, hnow.pending, ?_⟩
    intro service earlier hsuffix hservices
    have htime := hnow.onTime.suffix hsuffix
    have hlast : servicedAt entry.clock (service :: earlier) = service.time := by
      rw [servicedAt, if_pos hservices]
    refine ⟨hlast ▸ htime.clock_le, fun hcountable => ?_⟩
    rw [htime.ticksIn_eq hpending hcountable, hlast]
    rfl

/-- A host whose program waits for a key. -/
def expecting : Host := new (.holding [0xF1, 0x0A, 0x12, 0x00]) (.ofLayout .conventional) 60 0

def slowPolls : List Poll := [[], [], [], [.down 7]].map fun es => .answered 3000000 (.events es)

/-- A cycle that waits for three polls has two timer periods and most of a third. -/
theorem expecting_keeps_time :
    let run := ((Call.run (some 1)).perform .steady expecting slowPolls).1
    run ≠ .stalled ∧ run.Holds fun now => now.pacer.pending = 12000000 ∧
      ∃ service earlier, service :: earlier <:+ now.history ∧ service.time = 45333332 ∧
        ticksIn (service :: earlier) = 2 := by
  have hpending : expecting.pacer.pending < periodOf 60 := by decide +kernel
  have hperiod : expecting.pacer.period = periodOf 60 := rfl
  have htime := run_keeps_time .steady (show (60 : UInt32).toNat ≤ 1000000000 by decide) hperiod hpending
    (some 1) slowPolls
  have hlast : decide (((Call.run (some 1)).perform .steady expecting slowPolls).1.Holds fun now =>
      servicedAt 0 now.history = 45333332 ∧ expecting.Countable (now.history.drop 1) ∧
        (now.history.drop 1).head?.any fun s => s.event.services && s.time == 45333332) := by
    decide +kernel
  generalize ((Call.run (some 1)).perform .steady expecting slowPolls).1 = run at htime hlast ⊢
  obtain ⟨-, hrests, hrun⟩ := htime
  refine ⟨hrests, ?_⟩
  apply (hrun.and (of_decide_eq_true hlast)).mono
  rintro now ⟨⟨events, hhistory, hpending, hservices⟩, hserviced, hcountable, hservice⟩
  rw [show expecting.history = [] from rfl, List.append_nil] at hhistory
  subst hhistory
  cases hdrop : now.history.drop 1 with
  | nil => simp [hdrop] at hservice
  | cons service earlier =>
      rw [hdrop] at hcountable hservice
      rw [List.head?_cons, Option.any_some, Bool.and_eq_true, beq_iff_eq] at hservice
      have hsuffix : service :: earlier <:+ now.history := hdrop ▸ List.drop_suffix 1 now.history
      have hticks := (hservices service earlier hsuffix hservice.1).2 hcountable
      rw [hservice.2] at hticks
      refine ⟨?_, service, earlier, hsuffix, hservice.2, hticks.trans (by decide +kernel)⟩
      rw [hpending, show expecting.clock = 0 from rfl, hserviced]
      decide +kernel

end Host

end Chip8Console
