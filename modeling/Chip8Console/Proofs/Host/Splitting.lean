import Chip8Console.Proofs.Host.LongerRun
import Chip8Console.Proofs.Host.SameClock

/-!
# A run in two parts

Two runs with limits `n` and `m`, one right after the other, do the work of one run with limit `n + m`. Only
the timers can tell: each run counts their time from its own beginning, so they never get what has passed
between the last service of the first run and its end, while the host slept off the rest of the cycle. If no
time has passed there, nothing is lost. If some has, the timers run late from then on, and the machine
follows them as soon as it reads the delay timer.
-/

namespace Chip8Console

def Stage.result : Stage → Option (Ending × Machine)
  | .ended ending h => some (ending, h.machine)
  | _ => none

namespace Host

/-- A host that counts the timers' time from now on. -/
def recounted (h : Host) : Host := { h with timersAt := h.clock }

theorem recounted_of_timersAt {h : Host} (htimersAt : h.timersAt = h.clock) : h.recounted = h :=
  congrArg (fun time => { h with timersAt := time }) htimersAt.symm

variable {rig : Rig} {h k : Host}

/-- With draws that cost nothing a run comes to its first cycle in no time. -/
theorem start_run (hdraw : ∀ frames, rig.draw frames = .ok 0) (h : Host) (limit : Option Nat)
    (hstale : h.machine.stale = false) :
    ∃ next : Host, (Call.run limit).start rig h = next.beginCycle rig limit 0 ∧
      next.Beside True h.recounted ∧ delayReads next.history = delayReads h.history := by
  have hnoted : h.machine.noted = h.machine := by
    unfold Machine.noted
    rw [← hstale]
  simp only [Call.start, present, draw, hdraw]
  refine ⟨_, rfl, ⟨congrArg Machine.still hnoted, rfl, rfl, rfl, fun _ => ⟨?_, rfl, rfl⟩⟩, rfl⟩
  exact congrArg Machine.timers hnoted

theorem not_away_of_timed {ahead reads : Nat} {stage : Stage} :
    ¬ stage.On (besideStep True ahead reads).away := by
  apply Lockstep.not_away
  rintro h ⟨huntimed, -⟩
  exact huntimed trivial

/-- Calls that end alike, on machines with the same timers. -/
theorem result_of_timed {ahead reads : Nat} {stage stage' : Stage}
    (hstage : stage.InStep (besideStep True ahead reads) stage') : stage.result = stage'.result := by
  cases hstage with
  | top hcycle hhost => rfl
  | waiting x hcycle hhost => rfl
  | @ended ending hending h k hhost => rw [Stage.result, Stage.result, hhost.1.machine_eq trivial]
  | limit hlimit =>
      obtain ⟨k, rfl, hhost⟩ := hlimit
      rw [Stage.result, Stage.result, hhost.1.machine_eq trivial]
  | stalled => rfl

/-- A call that ends, and one that ends alike on a machine with other timers. -/
theorem result_of_ended {timed : Prop} {ahead reads : Nat} {ending : Ending} {now : Host} {stage : Stage}
    (hstage : (Stage.ended ending now).InStep (besideStep timed ahead reads) stage) :
    ∃ timers, stage.result = some (ending, { now.machine with timers }) := by
  cases hstage with
  | @ended ending hending h k hhost =>
      exact ⟨k.machine.timers, by rw [Stage.result, Machine.eq_withTimers_of_still hhost.1.machine]; rfl⟩
  | limit hlimit =>
      obtain ⟨k, rfl, hhost⟩ := hlimit
      exact ⟨k.machine.timers, by rw [Stage.result, Machine.eq_withTimers_of_still hhost.1.machine]; rfl⟩

/-- A run of `m` cycles on a host, and the rest of one of `n + m` cycles on a host beside it. -/
theorem feed_beside (hdraw : ∀ frames, rig.draw frames = .ok 0) {timed : Prop} (hk : h.Beside timed k)
    (n m : Nat) (polls : List Poll) :
    let first := (h.beginCycle rig (some m) 0).feed rig polls
    let rest := (k.beginCycle rig (some (n + m)) n).feed rig polls
    first.1.On (besideStep timed n (delayReads h.history)).away ∨
      first.1.InStep (besideStep timed n (delayReads h.history)) rest.1 ∧ first.2 = rest.2 := by
  have hkept := kept_besideStep hdraw timed n (delayReads h.history)
  have hbegun : (h.beginCycle rig (some m) 0).InStep (besideStep timed n (delayReads h.history))
      (k.beginCycle rig (some (n + m)) n) := beginCycle_beside ⟨hk, Nat.le_refl _⟩ (some m) 0
  have hpolls : List.Forall₂ Eq polls polls := List.forall₂_eq_eq_eq ▸ rfl
  rcases hkept.feed_together hpolls hbegun with haway | ⟨hrest, hleft⟩
  · exact .inl haway
  · exact .inr ⟨hrest, by simpa [List.forall₂_eq_eq_eq] using hleft⟩

/-- A run of `n` cycles and then one of `m` cycles, with draws that cost nothing, end like one run of
`n + m` cycles that counts the timers' time anew where the first run ended. So they end like the one run
itself if no time had passed there since the last service of the timers; and if some had, they still end
like it, and on the same machine but for its timers, unless the second run reads the delay timer. -/
theorem run_in_two_parts (hdraw : ∀ frames, rig.draw frames = .ok 0) {entry first : Host} {n : Nat}
    {polls left : List Poll}
    (hfirst : (Call.run (some n)).perform rig entry polls = (.ended .cycleLimit first, left)) (m : Nat) :
    let second := (Call.run (some m)).perform rig first left
    let whole := (Call.run (some (n + m))).perform rig entry polls
    (∃ seam : Host, seam.finish rig .cycleLimit = .ended .cycleLimit first ∧
      whole = (seam.beginCycle rig (some (n + m)) n).feed rig left ∧
      let anew := (seam.recounted.beginCycle rig (some (n + m)) n).feed rig left
      second.1.result = anew.1.result ∧ second.2 = anew.2) ∧
    (first.timersAt = first.clock → second.1.result = whole.1.result ∧ second.2 = whole.2) ∧
    ∀ ending now, second.1 = .ended ending now →
      delayReads now.history = delayReads first.history →
      (∃ timers, whole.1.result = some (ending, { now.machine with timers })) ∧ second.2 = whole.2 := by
  obtain ⟨seam, hstale, hfinish, hwhole⟩ := perform_longer hfirst m
  have hseam : first.Beside True seam := .of_finish True hfinish
  have hfresh : first.machine.stale = false := (Machine.stale_eq_of_still hseam.machine).trans hstale
  obtain ⟨next, hstart, hnext, hreads⟩ := start_run hdraw first (some m) hfresh
  have hsecond : (Call.run (some m)).perform rig first left =
      (next.beginCycle rig (some m) 0).feed rig left := congrArg (Stage.feed rig · left) hstart
  have hanew : next.Beside True seam.recounted := by
    refine hnext.trans ⟨hseam.machine, hseam.keyboard, hseam.clock, hseam.period, fun htimed => ?_⟩
    obtain ⟨htimers, hpacer, -⟩ := hseam.timers htimed
    exact ⟨htimers, hpacer, hseam.clock⟩
  have hsame : ((Call.run (some m)).perform rig first left).1.result =
        ((seam.recounted.beginCycle rig (some (n + m)) n).feed rig left).1.result ∧
      ((Call.run (some m)).perform rig first left).2 =
        ((seam.recounted.beginCycle rig (some (n + m)) n).feed rig left).2 := by
    rw [hsecond]
    rcases feed_beside hdraw hanew n m left with haway | ⟨hrest, hleft⟩
    · exact absurd haway not_away_of_timed
    · exact ⟨result_of_timed hrest, hleft⟩
  refine ⟨⟨seam, hfinish, hwhole, hsame⟩, fun htimersAt => ?_, fun ending now hended hunread => ?_⟩
  · have hcurrent : seam.timersAt = seam.clock := by
      rw [← (hseam.timers trivial).2.2, htimersAt, hseam.clock]
    rw [hwhole]
    rw [recounted_of_timersAt hcurrent] at hsame
    exact hsame
  · have hlate : next.Beside False seam :=
      ⟨hanew.machine, hanew.keyboard, hanew.clock, hanew.period, False.elim⟩
    rw [hsecond] at hended ⊢
    rw [hwhole]
    rcases feed_beside hdraw hlate n m left with haway | ⟨hrest, hleft⟩
    · rw [hended] at haway
      -- The second run would have read the delay timer.
      obtain ⟨-, hread⟩ := haway
      omega
    · rw [hended] at hrest
      exact ⟨result_of_ended hrest, hleft⟩

def inParts (rig : Rig) (h : Host) (n m : Nat) (polls : List Poll) : Option (Host × Host) :=
  match (Call.run (some n)).perform rig h polls with
  | (.ended .cycleLimit first, left) =>
    match (Call.run (some m)).perform rig first left with
    | (.ended .cycleLimit now, _) => some (first, now)
    | _ => none
  | _ => none

theorem exists_of_inParts {n m : Nat} {polls : List Poll} {p : Host × Host → Bool}
    (hparts : (h.inParts rig n m polls).any p) :
    ∃ first left now, (Call.run (some n)).perform rig h polls = (.ended .cycleLimit first, left) ∧
      ((Call.run (some m)).perform rig first left).1 = .ended .cycleLimit now ∧ p (first, now) := by
  unfold inParts at hparts
  split at hparts
  · next first left hfirst =>
    split at hparts
    · next now left' hnow => exact ⟨first, left, now, hfirst, congrArg Prod.fst hnow, hparts⟩
    · cases hparts
  · cases hparts

def leisurely : Rig := ⟨periodOf 1, fun _ => .ok 0, fun _ _ => none⟩

/-- A host whose program starts the delay timer and then goes round in a loop. -/
def countingDown : Host :=
  new (.holding [0x60, 0xFF, 0xF0, 0x15, 0x12, 0x04]) (.ofLayout .conventional) 60 0

def idlePolls : List Poll := List.replicate 3 (.answered 0 (.events []))

theorem countingDown_delay :
    ((Call.run (some 3)).perform leisurely countingDown idlePolls).1.result.map
      (fun r => r.2.timers.delay) = some 135 := by
  decide +kernel

theorem countingDown_parts :
    ∃ first left now,
      (Call.run (some 2)).perform leisurely countingDown idlePolls = (.ended .cycleLimit first, left) ∧
        ((Call.run (some 1)).perform leisurely first left).1 = .ended .cycleLimit now ∧
        now.machine.timers.delay = 195 ∧ delayReads now.history = delayReads first.history := by
  have hparts : (countingDown.inParts leisurely 2 1 idlePolls).any fun p =>
      p.2.machine.timers.delay == 195 && delayReads p.2.history == delayReads p.1.history := by
    decide +kernel
  obtain ⟨first, left, now, hfirst, hnow, hseen⟩ := exists_of_inParts hparts
  rw [Bool.and_eq_true, beq_iff_eq, beq_iff_eq] at hseen
  exact ⟨first, left, now, hfirst, hnow, hseen⟩

/-- The delay timer of two runs lags behind by the sixty ticks of a cycle that was slept off. -/
theorem countingDown_in_two_parts :
    ∃ first left now timers,
      (Call.run (some 2)).perform leisurely countingDown idlePolls = (.ended .cycleLimit first, left) ∧
        ((Call.run (some 1)).perform leisurely first left).1 = .ended .cycleLimit now ∧
        ((Call.run (some 3)).perform leisurely countingDown idlePolls).1.result =
          some (.cycleLimit, { now.machine with timers }) ∧
        now.machine.timers.delay = 195 ∧ timers.delay = 135 := by
  obtain ⟨first, left, now, hfirst, hnow, hdelay, hreads⟩ := countingDown_parts
  obtain ⟨-, -, hunread⟩ := run_in_two_parts (fun _ => rfl) hfirst 1
  obtain ⟨⟨timers, hresult⟩, -⟩ := hunread .cycleLimit now hnow hreads
  refine ⟨first, left, now, timers, hfirst, hnow, hresult, hdelay, ?_⟩
  have hwhole := congrArg (Option.map fun r : Ending × Machine => r.2.timers.delay) hresult
  exact (Option.some.inj (countingDown_delay.symm.trans hwhole)).symm

/-- So two runs in turn are not always as good as one. -/
theorem parts_not_whole :
    ¬ ∀ (rig : Rig) (entry first : Host) (n m : Nat) (polls left : List Poll),
      (∀ frames, rig.draw frames = .ok 0) → entry.machine.waiting = none →
      (Call.run (some n)).perform rig entry polls = (.ended .cycleLimit first, left) →
      ((Call.run (some m)).perform rig first left).1.result =
        ((Call.run (some (n + m))).perform rig entry polls).1.result := by
  intro hclaim
  obtain ⟨first, left, now, hfirst, hnow, hdelay, -⟩ := countingDown_parts
  have hwhole := countingDown_delay
  have hsame := hclaim leisurely countingDown first 2 1 idlePolls left (fun _ => rfl) rfl hfirst
  rw [hnow] at hsame
  rw [← hsame] at hwhole
  have hdelays : now.machine.timers.delay = 135 := Option.some.inj hwhole
  rw [hdelay] at hdelays
  exact absurd hdelays (by decide)

end Host

end Chip8Console
