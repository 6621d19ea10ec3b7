import Chip8Console.Proofs.Host.Spending

/-!
# The pace of a run

A run goes from cycle to cycle, and what a cycle takes is its polls, its redraw and its key wait. A cycle in
which these take less than the cycle's time is filled up by sleep; one in which they take more is late, and
nothing of that is made up for by the next one. So the clock shows the sum over all cycles that are over of
what each has taken, or of the cycle's time if that is more.
-/

namespace Chip8Console

namespace Stage

variable {rig : Rig} {stage middle : Stage}

theorem feed_nil (rig : Rig) (stage : Stage) : stage.feed rig [] = (stage, []) := by
  cases stage <;> rfl

theorem feed_append {polls : List Poll} (htaken : stage.feed rig polls = (middle, [])) (more : List Poll) :
    stage.feed rig (polls ++ more) = middle.feed rig more := by
  induction polls generalizing stage with
  | nil =>
      rw [feed_nil] at htaken
      cases htaken
      rfl
  | cons poll polls ih =>
      cases stage with
      | running phase h => exact ih htaken
      | ended ending h => cases htaken
      | stalled => cases htaken

def Seam : Stage → Prop
  | .running (.top _) _ | .ended .cycleLimit _ => True
  | _ => False

theorem not_seam_of_fails (hfails : stage.Fails) : ¬ stage.Seam := by
  cases stage with
  | running phase h => exact hfails.elim
  | stalled => exact id
  | ended ending now =>
      cases ending with
      | failed e => exact id
      | _ => exact hfails.elim

theorem feed_of_fails (hfails : stage.Fails) (polls : List Poll) : stage.feed rig polls = (stage, polls) := by
  cases stage with
  | running phase h => exact hfails.elim
  | ended ending now => exact feed_ended rig ending now polls
  | stalled => exact feed_stalled rig polls

end Stage

/-- A cycle that is over: the polls it has taken, and what it has cost to show the screen at its end. -/
structure Lap where
  top : Poll
  /-- The polls that have left a key wait unanswered. -/
  unanswered : List Poll
  /-- The poll that has answered it, if there was a key wait. -/
  answer : Option Poll
  redraw : Option Nat

namespace Lap

def polls (lap : Lap) : List Poll := lap.top :: (lap.unanswered ++ lap.answer.toList)

/-- What a cycle has taken, with a period of the timers for each poll that has left its key wait
unanswered. -/
def work (period : Nat) (lap : Lap) : Nat :=
  costOf lap.polls + lap.unanswered.length * period + lap.redraw.getD 0

/-- The time of all cycles together, each of which lasts at least as long as `cycle`. -/
def total (cycle period : Nat) : List Lap → Nat
  | [] => 0
  | lap :: laps => max cycle (lap.work period) + total cycle period laps

variable {cycle period : Nat}

theorem total_append (laps more : List Lap) :
    total cycle period (laps ++ more) = total cycle period laps + total cycle period more := by
  induction laps with
  | nil => exact (Nat.zero_add _).symm
  | cons lap laps ih => rw [List.cons_append, total, total, ih, Nat.add_assoc]

theorem le_total (laps : List Lap) : laps.length * cycle ≤ total cycle period laps := by
  induction laps with
  | nil => exact Nat.le_of_eq (Nat.zero_mul _)
  | cons lap laps ih =>
      rw [List.length_cons, Nat.succ_mul, Nat.add_comm, total]
      exact Nat.add_le_add (Nat.le_max_left _ _) ih

end Lap

namespace Host

variable {rig : Rig} {c : Cycle} {h now next : Host} {top : Poll} {unanswered : List Poll} {x : Nibble}

/-- A cycle that a host has completed since it was on top of it. -/
structure Completes (rig : Rig) (c : Cycle) (h : Host) (lap : Lap) (next : Host) : Prop where
  feed : (Stage.running (.top c) h).feed rig lap.polls =
    (next.beginCycle rig c.limit (c.done + 1), [])
  straight : lap.answer = none → lap.unanswered = []
  /-- The polls before the one that answers a key wait find the cycle in it. -/
  waits : lap.answer.isSome → ∃ x waiting,
    (Stage.running (.top c) h).feed rig (lap.top :: lap.unanswered) =
      (.running (.waiting x (some c)) waiting, [])
  shows : rig.Shows h.frames lap.redraw next.frames
  lasts : next.clock = h.clock + max rig.cycle (lap.work h.pacer.period)
  period : next.pacer.period = h.pacer.period
  fresh : next.machine.stale = false

/-- The key wait of a cycle that has not been answered yet. -/
structure Waits (rig : Rig) (c : Cycle) (h : Host) (top : Poll) (unanswered : List Poll) (x : Nibble)
    (now : Host) : Prop where
  feed : (Stage.running (.top c) h).feed rig (top :: unanswered) =
    (.running (.waiting x (some c)) now, [])
  spends : h.Spends (costOf (top :: unanswered) + unanswered.length * h.pacer.period) now
  fresh : now.machine.stale = false

/-- A cycle is completed when it turns over after its polls, and after the sleeps of its key wait. -/
theorem Completes.of_turnsOver (hstarted : c.started = h.clock) {lap : Lap} {behind : Host}
    (hspends : h.Spends (costOf lap.polls + lap.unanswered.length * h.pacer.period) behind)
    (hturns : behind.TurnsOver rig c lap.redraw next)
    (hfeed : (Stage.running (.top c) h).feed rig lap.polls =
      (next.beginCycle rig c.limit (c.done + 1), []))
    (hstraight : lap.answer = none → lap.unanswered = [])
    (hwaits : lap.answer.isSome → ∃ x waiting,
      (Stage.running (.top c) h).feed rig (lap.top :: lap.unanswered) =
        (.running (.waiting x (some c)) waiting, [])) : h.Completes rig c lap next where
  feed := hfeed
  straight := hstraight
  waits := hwaits
  shows := by
    rw [← hspends.frames]
    exact hturns.shows
  lasts := by
    rw [hturns.clock, hspends.clock, hstarted, Nat.add_sub_cancel_left]
    rfl
  period := hturns.period.trans hspends.period
  fresh := hturns.fresh

/-- What a poll makes of a run that is on top of a cycle. -/
theorem resume_top_cases (rig : Rig) (hstarted : c.started = h.clock) (hfresh : h.machine.stale = false)
    (poll : Poll) :
    (h.resume rig (.top c) poll).Fails ∨
      (∃ polled : Host, h.resume rig (.top c) poll = polled.finish rig .quit ∧
        polled.clock = h.clock + poll.cost) ∨
      (∃ x now, h.resume rig (.top c) poll = .running (.waiting x (some c)) now ∧
        h.Waits rig c poll [] x now) ∨
      ∃ redraw next, h.resume rig (.top c) poll = next.beginCycle rig c.limit (c.done + 1) ∧
        h.Completes rig c ⟨poll, [], none, redraw⟩ next := by
  obtain ⟨polled, heard, hpoll⟩ : ∃ polled heard, h.poll poll = (polled, heard) := ⟨_, _, rfl⟩
  have hpolled := Spends.of_poll hpoll
  have hfeed : ∀ stage, h.resume rig (.top c) poll = stage →
      (Stage.running (.top c) h).feed rig [poll] = (stage, []) := by
    rintro stage rfl
    exact Stage.feed_nil rig _
  simp only [resume, hpoll] at hfeed ⊢
  cases heard with
  | lost reason => exact .inl trivial
  | quit => exact .inr (.inl ⟨polled, rfl, hpolled.clock⟩)
  | goOn =>
      obtain ⟨stepped, outcome, hstep⟩ : ∃ stepped outcome, polled.step = (stepped, outcome) := ⟨_, _, rfl⟩
      have hspends : h.Spends poll.cost stepped := hpolled.trans (.of_step hstep)
      simp only [hstep] at hfeed ⊢
      cases outcome with
      | faulted f => exact .inl trivial
      | parked =>
          obtain ⟨x, -, hbegins⟩ := beginWait_of_parked rig hstep (some c)
          have haside := (Aside.of_poll hpoll).trans (.of_step hstep Outcome.noConfusion)
          refine .inr (.inr (.inl ⟨x, _, hbegins, hfeed _ hbegins, ?_, ?_⟩))
          · simpa [costOf] using hspends.trans (.note stepped _)
          · exact haside.screen.stale.trans hfresh
      | advanced =>
          rcases endCycle_cases rig (hspends.started_le hstarted) with hfails | ⟨redraw, next, hends, hturns⟩
          · exact .inl hfails
          · refine .inr (.inr (.inr ⟨redraw, next, hends, ?_⟩))
            exact .of_turnsOver hstarted (by simpa [Lap.polls, costOf] using hspends) hturns (hfeed _ hends)
              (fun _ => rfl) Bool.noConfusion

/-- What a poll makes of the key wait of a cycle. -/
theorem Waits.resume_cases (hstarted : c.started = h.clock) (hwaits : h.Waits rig c top unanswered x now)
    (poll : Poll) :
    (now.resume rig (.waiting x (some c)) poll).Fails ∨
      (∃ polled : Host, now.resume rig (.waiting x (some c)) poll = polled.finish rig .quit) ∨
      (∃ next, now.resume rig (.waiting x (some c)) poll = .running (.waiting x (some c)) next ∧
        h.Waits rig c top (unanswered ++ [poll]) x next) ∨
      ∃ redraw next, now.resume rig (.waiting x (some c)) poll = next.beginCycle rig c.limit (c.done + 1) ∧
        h.Completes rig c ⟨top, unanswered, some poll, redraw⟩ next := by
  obtain ⟨polled, heard, hpoll⟩ : ∃ polled heard, now.poll poll = (polled, heard) := ⟨_, _, rfl⟩
  have hcost : costOf (top :: (unanswered ++ [poll])) = costOf (top :: unanswered) + poll.cost := by
    rw [← List.cons_append, costOf_append]
    rfl
  have hspends : h.Spends (costOf (top :: (unanswered ++ [poll])) + unanswered.length * h.pacer.period)
      polled := by
    rw [hcost, Nat.add_right_comm]
    exact hwaits.spends.trans (.of_poll hpoll)
  have hfeed : ∀ stage, now.resume rig (.waiting x (some c)) poll = stage →
      (Stage.running (.top c) h).feed rig (top :: (unanswered ++ [poll])) = (stage, []) := by
    rintro stage rfl
    rw [← List.cons_append, Stage.feed_append hwaits.feed]
    exact Stage.feed_nil rig _
  simp only [resume, hpoll] at hfeed ⊢
  cases heard with
  | lost reason => exact .inl trivial
  | quit => exact .inr (.inl ⟨_, rfl⟩)
  | goOn =>
      simp only at hfeed ⊢
      split
      · next hnone =>
        rcases endCycle_cases rig (hspends.started_le hstarted) with hfails | ⟨redraw, next, hends, hturns⟩
        · exact .inl hfails
        · refine .inr (.inr (.inr ⟨redraw, next, hends, ?_⟩))
          exact .of_turnsOver hstarted hspends hturns (hfeed _ ((if_pos hnone).trans hends))
            (fun hstraight => absurd hstraight (Option.some_ne_none poll)) fun _ => ⟨x, now, hwaits.feed⟩
      · next hwaiting =>
        have hfresh : polled.machine.stale = false :=
          (Aside.of_poll hpoll).screen.stale.trans hwaits.fresh
        rcases stayWaiting_cases rig hfresh x c with hfails | ⟨next, hstays, hslept, hnext⟩
        · exact .inl hfails
        · refine .inr (.inr (.inl ⟨next, hstays, hfeed _ ((if_neg hwaiting).trans hstays), ?_, hnext⟩))
          rw [List.length_append, List.length_singleton, Nat.succ_mul, ← Nat.add_assoc]
          rw [hspends.period] at hslept
          exact hspends.trans hslept

end Host

/-- Cycles of a run, completed one after the other, from one stage to another. -/
inductive Laps (rig : Rig) : Stage → List Lap → Stage → Prop where
  | refl (stage : Stage) : Laps rig stage [] stage
  | lap {c : Cycle} {h next : Host} {lap : Lap} {laps : List Lap} {stage : Stage}
      (hlap : h.Completes rig c lap next)
      (hlaps : Laps rig (next.beginCycle rig c.limit (c.done + 1)) laps stage) :
      Laps rig (.running (.top c) h) (lap :: laps) stage

/-- A stage of a run between two cycles, after so many and at some time. -/
def Stage.Between (limit : Option Nat) (period done time : Nat) : Stage → Prop
  | .running (.top c) h => c = ⟨limit, done, time⟩ ∧ h.clock = time ∧ h.pacer.period = period ∧
      h.machine.stale = false ∧ limit.any (· ≤ done) = false
  | .ended .cycleLimit now => limit = some done ∧ now.clock = time
  | _ => False

namespace Host

theorem between_beginCycle (rig : Rig) {h : Host} (hfresh : h.machine.stale = false) {limit : Option Nat}
    {done : Nat} (hdone : ∀ n, limit = some n → done ≤ n) :
    (h.beginCycle rig limit done).Between limit h.pacer.period done h.clock := by
  unfold beginCycle
  split
  · next hlimit =>
    obtain ⟨now, hfinish⟩ := h.exists_finish rig .cycleLimit
    cases limit with
    | none => cases hlimit
    | some n =>
        have hreached : n ≤ done := of_decide_eq_true hlimit
        rw [hfinish]
        exact ⟨congrArg some (Nat.le_antisymm hreached (hdone n rfl)), clock_of_finish hfinish⟩
  · next hlimit => exact ⟨rfl, rfl, rfl, hfresh, Bool.eq_false_iff.2 hlimit⟩

end Host

namespace Laps

variable {rig : Rig} {start middle stage : Stage} {laps more : List Lap}

theorem trans (first : Laps rig start laps middle) (second : Laps rig middle more stage) :
    Laps rig start (laps ++ more) stage := by
  induction first with
  | refl => exact second
  | lap hlap _ ih => exact .lap hlap (ih second)

/-- The time that laps take. -/
theorem between {limit : Option Nat} {period done time : Nat} (hlaps : Laps rig start laps stage)
    (hstart : start.Between limit period done time) :
    stage.Between limit period (done + laps.length) (time + Lap.total rig.cycle period laps) := by
  -- Each lap is counted from where the one before has ended, so only its own work tells how long it is.
  induction hlaps generalizing done time with
  | refl => exact hstart
  | @lap c h next lap laps stage hlap hlaps ih =>
      obtain ⟨rfl, rfl, rfl, -, hlimit⟩ := hstart
      have hdone : ∀ n, limit = some n → done + 1 ≤ n := by
        rintro n rfl
        exact Nat.lt_of_not_le (of_decide_eq_false hlimit)
      have hbegun := Host.between_beginCycle rig hlap.fresh hdone
      rw [hlap.period, hlap.lasts] at hbegun
      have hlast := ih hbegun
      rwa [Nat.add_assoc, Nat.add_comm 1, Nat.add_assoc] at hlast

end Laps

/-- How far a run has come from its start with the polls it has taken. -/
inductive Underway (rig : Rig) (start : Stage) : List Poll → Stage → Prop where
  | between {laps : List Lap} {stage : Stage} (hlaps : Laps rig start laps stage) :
      Underway rig start (laps.flatMap Lap.polls) stage
  | waiting {laps : List Lap} {c : Cycle} {h now : Host} {top : Poll} {unanswered : List Poll} {x : Nibble}
      (hlaps : Laps rig start laps (.running (.top c) h)) (hwaits : h.Waits rig c top unanswered x now) :
      Underway rig start (laps.flatMap Lap.polls ++ top :: unanswered) (.running (.waiting x (some c)) now)
  | failed {taken : List Poll} {stage : Stage} (hfails : stage.Fails) : Underway rig start taken stage
  | quit (taken : List Poll) (now : Host) : Underway rig start taken (.ended .quit now)

namespace Underway

variable {rig : Rig} {start : Stage} {limit : Option Nat} {period done time : Nat} {taken : List Poll}

theorem of_quit (rig : Rig) (start : Stage) (taken : List Poll) (h : Host) :
    Underway rig start taken (h.finish rig .quit) := by
  obtain ⟨now, hfinish⟩ := h.exists_finish rig .quit
  rw [hfinish]
  exact .quit taken now

theorem of_completes {laps : List Lap} {c : Cycle} {h next : Host} {lap : Lap}
    (hlaps : Laps rig start laps (.running (.top c) h)) (hlap : h.Completes rig c lap next) :
    Underway rig start (laps.flatMap Lap.polls ++ lap.polls)
      (next.beginCycle rig c.limit (c.done + 1)) := by
  have hmore := between (hlaps.trans (.lap hlap (.refl _)))
  rwa [List.flatMap_append, List.flatMap_singleton] at hmore

/-- One more poll. -/
theorem resume (hstart : start.Between limit period done time) {phase : Phase} {h : Host}
    (hunderway : Underway rig start taken (.running phase h)) (poll : Poll) :
    Underway rig start (taken ++ [poll]) (h.resume rig phase poll) := by
  cases hunderway with
  | failed hfails => exact hfails.elim
  | between hlaps =>
      have hbetween := hlaps.between hstart
      cases phase with
      | waiting x cycle => exact hbetween.elim
      | top c =>
          obtain ⟨hc, hclock, -, hfresh, -⟩ := hbetween
          have hstarted : c.started = h.clock := (congrArg Cycle.started hc).trans hclock.symm
          rcases Host.resume_top_cases rig hstarted hfresh poll with
            hfails | ⟨polled, hquit, -⟩ | ⟨x, now, hparks, hwaits⟩ | ⟨redraw, next, hends, hlap⟩
          · exact .failed hfails
          · exact hquit ▸ .of_quit rig start _ polled
          · exact hparks ▸ .waiting hlaps hwaits
          · exact hends ▸ .of_completes hlaps hlap
  | waiting hlaps hwaits =>
      obtain ⟨hc, hclock, -⟩ := hlaps.between hstart
      have hstarted := (congrArg Cycle.started hc).trans hclock.symm
      rw [List.append_assoc, List.cons_append]
      rcases hwaits.resume_cases hstarted poll with
        hfails | ⟨polled, hquit⟩ | ⟨next, hstays, hwaits⟩ | ⟨redraw, next, hends, hlap⟩
      · exact .failed hfails
      · exact hquit ▸ .of_quit rig start _ polled
      · exact hstays ▸ .waiting hlaps hwaits
      · exact hends ▸ .of_completes hlaps hlap

theorem feed (hstart : start.Between limit period done time) {stage result : Stage} {polls left : List Poll}
    (hunderway : Underway rig start taken stage) (hfeed : stage.feed rig polls = (result, left)) :
    ∃ more, polls = more ++ left ∧ Underway rig start (taken ++ more) result := by
  induction polls generalizing stage taken with
  | nil =>
      rw [Stage.feed_nil] at hfeed
      cases hfeed
      exact ⟨[], rfl, by rwa [List.append_nil]⟩
  | cons poll polls ih =>
      cases stage with
      | running phase h =>
          obtain ⟨more, rfl, hresult⟩ := ih (hunderway.resume hstart poll) hfeed
          exact ⟨poll :: more, rfl, by rwa [List.append_assoc] at hresult⟩
      | ended ending now =>
          cases hfeed
          exact ⟨[], rfl, by rwa [List.append_nil]⟩
      | stalled =>
          cases hfeed
          exact ⟨[], rfl, by rwa [List.append_nil]⟩

end Underway

namespace Host

variable {rig : Rig} {entry : Host} {limit : Option Nat} {polls left : List Poll} {stage : Stage}

/-- A run that has shown the screen and then taken some polls for its cycles, down to the end of one. -/
structure RunsThrough (rig : Rig) (entry : Host) (limit : Option Nat) (first : Nat) (laps : List Lap)
    (taken : List Poll) (stage : Stage) : Prop where
  draw : rig.draw entry.frames = .ok first
  completed : Laps rig ((Call.run limit).start rig entry) laps stage
  polls : taken = laps.flatMap Lap.polls

theorem between_start_run (rig : Rig) (entry : Host) (limit : Option Nat) :
    ((Call.run limit).start rig entry).Fails ∨ ∃ first, rig.draw entry.frames = .ok first ∧
      ((Call.run limit).start rig entry).Between limit entry.pacer.period 0 (entry.clock + first) := by
  have hopened : { entry.note (.starting entry.machine.pc rig.cycle) with
      timersAt := (entry.note (.starting entry.machine.pc rig.cycle)).clock } = entry.opened rig := rfl
  simp only [Call.start, hopened]
  split
  · exact .inl trivial
  · next drawn hpresent =>
    obtain ⟨first, hdraw, hredraws⟩ := exists_redraws_of_present hpresent
    have hnone : ∀ n, limit = some n → 0 ≤ n := fun n _ => Nat.zero_le n
    have hbetween := between_beginCycle rig hredraws.fresh hnone
    rw [hredraws.clock, hredraws.period] at hbetween
    exact .inr ⟨first, hdraw, hbetween⟩

theorem exists_runsThrough (hperform : (Call.run limit).perform rig entry polls = (stage, left))
    (hseam : stage.Seam) : ∃ first laps taken, polls = taken ++ left ∧
      entry.RunsThrough rig limit first laps taken stage ∧
      stage.Between limit entry.pacer.period laps.length
        (entry.clock + first + Lap.total rig.cycle entry.pacer.period laps) := by
  unfold Call.perform at hperform
  rcases between_start_run rig entry limit with hfails | ⟨first, hdraw, hstart⟩
  · rw [Stage.feed_of_fails hfails] at hperform
    cases hperform
    exact absurd hseam (Stage.not_seam_of_fails hfails)
  · obtain ⟨taken, hpolls, hunderway⟩ := Underway.feed hstart (.between (.refl _)) hperform
    cases hunderway with
    | between hlaps =>
        have hbetween := hlaps.between hstart
        rw [Nat.zero_add] at hbetween
        exact ⟨first, _, _, hpolls, ⟨hdraw, hlaps, rfl⟩, hbetween⟩
    | waiting => exact hseam.elim
    | failed hfails => exact absurd hseam (Stage.not_seam_of_fails hfails)
    | quit => exact hseam.elim

theorem beginCycle_ne_quit (rig : Rig) (h now : Host) (limit : Option Nat) (done : Nat) :
    h.beginCycle rig limit done ≠ .ended .quit now := by
  obtain ⟨next, hfinish⟩ := h.exists_finish rig .cycleLimit
  unfold beginCycle
  rw [hfinish]
  split <;> rintro ⟨⟩

/-- A run that is asked to stop on top of a cycle ends when that poll has been answered. -/
theorem clock_of_quit {c : Cycle} {h now : Host} (hstarted : c.started = h.clock)
    (hfresh : h.machine.stale = false) {last : Poll}
    (hquit : h.resume rig (.top c) last = .ended .quit now) : now.clock = h.clock + last.cost := by
  rcases resume_top_cases rig hstarted hfresh last with
    hfails | ⟨polled, hfinish, hclock⟩ | ⟨x, waiting, hparks, -⟩ | ⟨redraw, next, hends, -⟩
  · rw [hquit] at hfails
    exact hfails.elim
  · rw [← hclock]
    exact clock_of_finish (hfinish.symm.trans hquit)
  · cases hparks.symm.trans hquit
  · exact absurd (hends.symm.trans hquit) (beginCycle_ne_quit rig next now _ _)

/-- The time that a run takes, on a clock that only polls, draws and sleeps move. After the first draw it is
the sum over the cycles that are completed, and each of them lasts as long as its polls, its redraw and its
key wait together, but not less than a cycle. That is the time whenever the run is on top of a cycle and when
its limit is reached; if it is asked to stop on top of a cycle, what that poll has cost is added. However late
the cycles before have been, each one after them lasts a cycle at least. -/
theorem run_paced (rig : Rig) (entry : Host) {rate timerRate : UInt32} (hcycle : rig.cycle = periodOf rate)
    (hperiod : entry.pacer.period = periodOf timerRate) (limit : Option Nat) (polls : List Poll) :
    let run := (Call.run limit).perform rig entry polls
    let time := fun first laps =>
      entry.clock + first + Lap.total (periodOf rate) (periodOf timerRate) laps
    (∀ c h, run.1 = .running (.top c) h →
        ∃ first laps, entry.RunsThrough rig limit first laps polls run.1 ∧
          c.done = laps.length ∧ c.started = h.clock ∧ h.clock = time first laps) ∧
      (∀ now, run.1 = .ended .cycleLimit now →
        ∃ first laps taken, polls = taken ++ run.2 ∧
          entry.RunsThrough rig limit first laps taken run.1 ∧
          limit = some laps.length ∧ now.clock = time first laps) ∧
      (∀ now, run.1 = .ended .quit now →
        ∃ taken last phase h, polls = taken ++ last :: run.2 ∧
          (Call.run limit).perform rig entry taken = (.running phase h, []) ∧
          h.resume rig phase last = .ended .quit now ∧
          ∀ c, phase = .top c →
            ∃ first laps, entry.RunsThrough rig limit first laps taken (.running (.top c) h) ∧
              now.clock = time first laps + last.cost) ∧
      ∀ first laps later, time first laps + later.length * periodOf rate ≤ time first (laps ++ later) := by
  rw [← hcycle, ← hperiod]
  intro run time
  have hperform : ∀ {stage : Stage}, run.1 = stage →
      (Call.run limit).perform rig entry polls = (stage, run.2) := fun hstage => Prod.ext hstage rfl
  refine ⟨fun c h htop => ?_, fun now hlimit => ?_, fun now hquit => ?_, fun first laps later => ?_⟩
  · obtain ⟨first, laps, taken, hpolls, hthrough, hc, hclock, -⟩ :=
      exists_runsThrough (hperform htop) trivial
    have hleft : run.2 = [] := Stage.left_eq_nil_of_running htop
    rw [hleft, List.append_nil] at hpolls
    refine ⟨first, laps, ?_, congrArg Cycle.done hc, (congrArg Cycle.started hc).trans hclock.symm, hclock⟩
    rwa [htop, hpolls]
  · obtain ⟨first, laps, taken, hpolls, hthrough, hlength, hclock⟩ :=
      exists_runsThrough (hperform hlimit) trivial
    refine ⟨first, laps, taken, hpolls, ?_, hlength, hclock⟩
    rwa [hlimit]
  · rcases Stage.exists_last_poll (hperform hquit) with
      ⟨hstart, -⟩ | ⟨taken, last, phase, h, hpolls, htaken, hlast⟩
    · rcases between_start_run rig entry limit with hfails | ⟨first, -, hbetween⟩
      · rw [hstart] at hfails
        exact hfails.elim
      · rw [hstart] at hbetween
        exact hbetween.elim
    · refine ⟨taken, last, phase, h, hpolls, htaken, hlast, ?_⟩
      rintro c rfl
      obtain ⟨first, laps, used, hused, hthrough, hc, hclock, -, hfresh, -⟩ :=
        exists_runsThrough htaken trivial
      rw [List.append_nil] at hused
      have hstarted := (congrArg Cycle.started hc).trans hclock.symm
      refine ⟨first, laps, hused ▸ hthrough, ?_⟩
      rw [clock_of_quit hstarted hfresh hlast, hclock]
  · have hlater : later.length * rig.cycle ≤ Lap.total rig.cycle entry.pacer.period later :=
      Lap.le_total later
    show entry.clock + first + _ + _ ≤ entry.clock + first + _
    rw [Lap.total_append, ← Nat.add_assoc]
    exact Nat.add_le_add_left hlater _

/-- A machine whose program clears the screen, waits for a key and sets a register. -/
def unhurried : Host :=
  new (.holding [0x00, 0xE0, 0xF1, 0x0A, 0x60, 0x05, 0x12, 0x00]) (.ofLayout .conventional) 60 5

/-- A rig whose draws take longer than a cycle. -/
def slowScreen : Rig := { Rig.steady with draw := fun _ => .ok 2000000 }

def fivePolls : List Poll :=
  [.answered 1000 (.events []), .answered 500 (.events []), .answered 7 (.events []),
    .answered 3 (.events [.down 9]), .answered 100 (.events [])]

/-- The first cycle is late, the second lasts as long as its key wait, and only the third is filled up. -/
theorem unhurried_paced :
    ∃ now laps, (Call.run (some 3)).perform slowScreen unhurried fivePolls = (.ended .cycleLimit now, []) ∧
      unhurried.RunsThrough slowScreen (some 3) 2000000 laps fivePolls (.ended .cycleLimit now) ∧
      laps.length = 3 ∧
      Lap.total (periodOf 700) (periodOf 60) laps = 2001000 + (510 + periodOf 60) + periodOf 700 := by
  obtain ⟨-, hlimited, -⟩ := run_paced slowScreen unhurried (show slowScreen.cycle = periodOf 700 from rfl)
    (show unhurried.pacer.period = periodOf 60 from rfl) (some 3) fivePolls
  have hends : ((Call.run (some 3)).perform slowScreen unhurried fivePolls).1.ends (fun ending now =>
        ending == .cycleLimit && now.clock == 22096752) &&
      ((Call.run (some 3)).perform slowScreen unhurried fivePolls).2.isEmpty := by
    decide +kernel
  generalize (Call.run (some 3)).perform slowScreen unhurried fivePolls = run at hends hlimited ⊢
  obtain ⟨stage, left⟩ := run
  rw [Bool.and_eq_true, List.isEmpty_iff] at hends
  obtain ⟨hended, rfl⟩ := hends
  obtain ⟨ending, now, rfl, htest⟩ := Stage.exists_of_ends hended
  rw [Bool.and_eq_true, beq_iff_eq, beq_iff_eq] at htest
  obtain ⟨rfl, hclock⟩ := htest
  obtain ⟨first, laps, taken, hpolls, hthrough, hlength, htime⟩ := hlimited now rfl
  obtain rfl : 2000000 = first := Except.ok.inj hthrough.draw
  rw [List.append_nil] at hpolls
  have htotal : 22096752 = 5 + 2000000 + Lap.total (periodOf 700) (periodOf 60) laps :=
    hclock.symm.trans htime
  have hsum : 2001000 + (510 + periodOf 60) + periodOf 700 = 20096747 := by decide
  exact ⟨now, laps, rfl, hpolls ▸ hthrough, (Option.some.inj hlength).symm, by omega⟩

end Host

end Chip8Console
