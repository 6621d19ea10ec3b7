import Chip8Console.Proofs.Host.Session
import Mathlib.Data.List.Forall2

/-!
# Two calls in lockstep

Two calls go from poll to poll side by side, on hosts, cycles and polls that are related in some way. A
lockstep says how, and also what the second call has come to when the first has reached its limit, and what
may bring the first call out of step. `Lockstep.Kept` says of each thing that a host does that both do it
alike. From there the module goes through the host loop once: calls that set out in lockstep stay in it,
unless the first gets out of step.
-/

namespace Chip8Console

/-- How two calls are related. -/
structure Lockstep where
  hosts : Host → Host → Prop
  cycles : Cycle → Cycle → Prop
  polls : Poll → Poll → Prop
  /-- The host of a first call that is over because of its limit, and the stage of the second call. -/
  limits : Host → Stage → Prop
  /-- What becomes of a first call that gets out of step. -/
  escapes : Host → Prop

inductive Stage.InStep (lockstep : Lockstep) : Stage → Stage → Prop where
  | top {c c' : Cycle} {h k : Host} (hcycle : lockstep.cycles c c') (hhost : lockstep.hosts h k) :
      InStep lockstep (.running (.top c) h) (.running (.top c') k)
  | waiting (x : Nibble) {c c' : Option Cycle} {h k : Host} (hcycle : c.Rel lockstep.cycles c')
      (hhost : lockstep.hosts h k) :
      InStep lockstep (.running (.waiting x c) h) (.running (.waiting x c') k)
  | ended {ending : Ending} (hending : ending ≠ .cycleLimit) {h k : Host} (hhost : lockstep.hosts h k) :
      InStep lockstep (.ended ending h) (.ended ending k)
  | limit {h : Host} {stage : Stage} (hlimit : lockstep.limits h stage) :
      InStep lockstep (.ended .cycleLimit h) stage
  | stalled : InStep lockstep .stalled .stalled

/-! ### Two hosts that hear the same -/

/-- A relation that hosts stay in when both hear the same, whatever they take note of. -/
structure HearTogether (R : Host → Host → Prop) : Prop where
  noteLeft : ∀ {h k : Host} (n : Notice), R h k → R (h.note n) k
  noteRight : ∀ {h k : Host} (n : Notice), R h k → R h (k.note n)
  press : ∀ {h k : Host} (key : UInt8), R h k →
    R { h with machine := h.machine.pressKey key } { k with machine := k.machine.pressKey key }
  release : ∀ {h k : Host} (key : UInt8), R h k →
    R { h with machine := h.machine.releaseKey key } { k with machine := k.machine.releaseKey key }

namespace HearTogether

variable {R : Host → Host → Prop} {h k : Host}

theorem noteAll (hear : HearTogether R) (hk : R h k) (ns ns' : List Notice) :
    R (h.noteAll ns) (k.noteAll ns') := by
  have hleft : R (h.noteAll ns) k := by
    apply List.foldlRecOn (motive := fun h => R h k) ns Host.note hk
    intro next hnext n _
    exact hear.noteLeft n hnext
  apply List.foldlRecOn (motive := R (h.noteAll ns)) ns' Host.note hleft
  intro next hnext n _
  exact hear.noteRight n hnext

theorem events (hear : HearTogether R) (hk : R h k) (es : List KeyEvent) :
    R (h.hear es).1 (k.hear es).1 ∧ (h.hear es).2 = (k.hear es).2 := by
  induction es generalizing h k with
  | nil => exact ⟨hk, rfl⟩
  | cons e es ih =>
      cases e with
      | quit => exact ⟨hk, rfl⟩
      | down key => exact ih (hear.press key (hear.noteAll hk _ _))
      | up key => exact ih (hear.release key hk)

end HearTogether

namespace Lockstep

/-- The parts of two answers, when the hosts are related and the rest is the same. -/
theorem split_pair {α : Type} {R : Host → Host → Prop} {p q : Host × α} (h : R p.1 q.1 ∧ p.2 = q.2) :
    ∃ h k a, p = (h, a) ∧ q = (k, a) ∧ R h k :=
  ⟨p.1, q.1, p.2, rfl, Prod.ext rfl h.2.symm, h.1⟩

/-- The course of a first call that is out of step. -/
def away (lockstep : Lockstep) : Course := .throughout lockstep.escapes (∃ h, lockstep.escapes h)

/-- A first call that cannot get out of step never is. -/
theorem not_away {lockstep : Lockstep} (hnever : ∀ h, ¬ lockstep.escapes h) {stage : Stage} :
    ¬ stage.On lockstep.away := by
  intro haway
  cases stage with
  | running phase h => exact hnever h haway
  | ended ending h => exact hnever h haway
  | stalled =>
      obtain ⟨h, hescapes⟩ := haway
      exact hnever h hescapes

/-- What has to be shown of the parts of two calls. -/
structure Kept (rig rig' : Rig) (lockstep : Lockstep) : Prop where
  poll : ∀ {h k : Host} {p q : Poll}, lockstep.hosts h k → lockstep.polls p q →
    lockstep.hosts (h.poll p).1 (k.poll q).1 ∧ (h.poll p).2 = (k.poll q).2
  step : ∀ {h k : Host}, lockstep.hosts h k →
    lockstep.escapes h.step.1 ∨ lockstep.hosts h.step.1 k.step.1 ∧ h.step.2 = k.step.2
  escape : lockstep.away.Kept rig
  escape_poll : ∀ {h : Host} (poll : Poll), lockstep.escapes h → lockstep.escapes (h.poll poll).1
  waiting : ∀ {h k : Host}, lockstep.hosts h k → h.machine.waiting = k.machine.waiting
  registers : ∀ {h k : Host}, lockstep.hosts h k → h.machine.v = k.machine.v
  await : ∀ {h k : Host} (x : Nibble), lockstep.hosts h k →
    lockstep.hosts (h.note (.awaiting x)) (k.note (.awaiting x))
  abandon : ∀ {h k : Host}, lockstep.hosts h k →
    lockstep.hosts { h with machine := h.machine.abandonWait } { k with machine := k.machine.abandonWait }
  catchUp : ∀ {h k : Host}, lockstep.hosts h k → (h.catchUp rig).Rel lockstep.hosts (k.catchUp rig')
  redraw : ∀ {h k : Host}, lockstep.hosts h k →
    lockstep.hosts (h.redraw rig).1 (k.redraw rig').1 ∧ (h.redraw rig).2 = (k.redraw rig').2
  rest : ∀ {h k : Host}, lockstep.hosts h k →
    lockstep.hosts (h.elapse h.pacer.period) (k.elapse k.pacer.period)
  finish : ∀ {h h' k k' : Host} {ending : Ending}, lockstep.hosts h k →
    h.finish rig ending = .ended ending h' → k.finish rig' ending = .ended ending k' →
    lockstep.hosts h' k'
  /-- From the end of a cycle to the next one, or to the limit. -/
  turn : ∀ {h k : Host} {c c' : Cycle}, lockstep.hosts h k → lockstep.cycles c c' →
    h.machine.stale = false →
    ((h.elapse (rig.cycle - (h.clock - c.started))).beginCycle rig c.limit (c.done + 1)).InStep lockstep
      ((k.elapse (rig'.cycle - (k.clock - c'.started))).beginCycle rig' c'.limit (c'.done + 1))

namespace Kept

variable {rig rig' : Rig} {lockstep : Lockstep} {h k : Host}

theorem finished (kept : lockstep.Kept rig rig') (hhost : lockstep.hosts h k) {ending : Ending}
    (hending : ending ≠ .cycleLimit) :
    (h.finish rig ending).InStep lockstep (k.finish rig' ending) := by
  obtain ⟨h', hfinish⟩ := h.exists_finish rig ending
  obtain ⟨k', hfinish'⟩ := k.exists_finish rig' ending
  rw [hfinish, hfinish']
  exact .ended hending (kept.finish hhost hfinish hfinish')

theorem endCycle (kept : lockstep.Kept rig rig') (hhost : lockstep.hosts h k) {c c' : Cycle}
    (hcycle : lockstep.cycles c c') :
    (h.endCycle rig c).InStep lockstep (k.endCycle rig' c') := by
  have hcaught := kept.catchUp hhost
  unfold Host.endCycle
  generalize h.catchUp rig = caught, k.catchUp rig' = caught' at hcaught ⊢
  cases hcaught with
  | none => exact .stalled
  | some hnext =>
      obtain ⟨drawn, drawn', failure, hredraw, hredraw', hdrawn⟩ := split_pair (kept.redraw hnext)
      simp only [hredraw, hredraw']
      cases failure with
      | some reason => exact kept.finished hdrawn (by simp)
      | none => exact kept.turn hdrawn hcycle (Host.stale_of_redraw hredraw)

theorem fail (kept : lockstep.Kept rig rig') (hhost : lockstep.hosts h k) {c c' : Option Cycle}
    (hcycle : c.Rel lockstep.cycles c') (e : HostError) :
    (h.fail rig c e).InStep lockstep (k.fail rig' c' e) := by
  unfold Host.fail
  cases hcycle with
  | none => exact .ended (by simp) hhost
  | some hcycle => exact kept.finished hhost (by simp)

theorem giveUp (kept : lockstep.Kept rig rig') (hhost : lockstep.hosts h k) {c c' : Option Cycle}
    (hcycle : c.Rel lockstep.cycles c') :
    (h.giveUp rig c).InStep lockstep (k.giveUp rig' c') := by
  unfold Host.giveUp
  cases hcycle with
  | none => exact .ended (by simp) hhost
  | some hcycle => exact kept.finished hhost (by simp)

theorem beginWait (kept : lockstep.Kept rig rig') (hhost : lockstep.hosts h k) {c c' : Option Cycle}
    (hcycle : c.Rel lockstep.cycles c') :
    (h.beginWait rig c).InStep lockstep (k.beginWait rig' c') := by
  unfold Host.beginWait
  rw [kept.waiting hhost]
  cases k.machine.waiting with
  | none => exact kept.giveUp hhost hcycle
  | some x => exact .waiting x hcycle (kept.await x hhost)

theorem answered (kept : lockstep.Kept rig rig') (hhost : lockstep.hosts h k) (x : Nibble)
    {c c' : Option Cycle} (hcycle : c.Rel lockstep.cycles c') :
    (h.answered rig x c).InStep lockstep (k.answered rig' x c') := by
  cases hcycle with
  | none =>
      simp only [Host.answered, kept.registers hhost]
      exact .ended (by simp) hhost
  | some hcycle => exact kept.endCycle hhost hcycle

theorem stayWaiting (kept : lockstep.Kept rig rig') (hhost : lockstep.hosts h k) (x : Nibble)
    {c c' : Option Cycle} (hcycle : c.Rel lockstep.cycles c') :
    (h.stayWaiting rig x c).InStep lockstep (k.stayWaiting rig' x c') := by
  have hcaught := kept.catchUp hhost
  unfold Host.stayWaiting
  generalize h.catchUp rig = caught, k.catchUp rig' = caught' at hcaught ⊢
  cases hcaught with
  | none => exact .stalled
  | some hnext =>
      obtain ⟨drawn, drawn', failure, hredraw, hredraw', hdrawn⟩ := split_pair (kept.redraw hnext)
      simp only [hredraw, hredraw']
      cases failure with
      | some reason => exact kept.fail hdrawn hcycle _
      | none => exact .waiting x hcycle (kept.rest hdrawn)

/-- From the top of a cycle to the next poll. -/
theorem resume_top (kept : lockstep.Kept rig rig') (hhost : lockstep.hosts h k) {c c' : Cycle}
    (hcycle : lockstep.cycles c c') {p q : Poll} (hpoll : lockstep.polls p q) :
    (h.resume rig (.top c) p).On lockstep.away ∨
      (h.resume rig (.top c) p).InStep lockstep (k.resume rig' (.top c') q) := by
  obtain ⟨polled, polled', heard, heq, heq', hpolled⟩ := split_pair (kept.poll hhost hpoll)
  cases heard with
  | lost reason =>
      simp only [Host.resume, heq, heq']
      exact .inr (kept.finished hpolled (by simp))
  | quit =>
      simp only [Host.resume, heq, heq']
      exact .inr (kept.finished hpolled (by simp))
  | goOn =>
      rcases kept.step hpolled with hescapes | hstepped
      · left
        obtain ⟨next, outcome, hstep⟩ : ∃ next outcome, polled.step = (next, outcome) := ⟨_, _, rfl⟩
        rw [hstep] at hescapes
        simp only [Host.resume, heq, hstep]
        cases outcome with
        | faulted f => exact kept.escape.finished hescapes
        | parked => exact kept.escape.beginWait hescapes (some c)
        | advanced => exact kept.escape.endCycle hescapes c
      · right
        obtain ⟨next, next', outcome, hstep, hstep', hnext⟩ := split_pair hstepped
        simp only [Host.resume, heq, heq', hstep, hstep']
        cases outcome with
        | faulted f => exact kept.finished hnext (by simp)
        | parked => exact kept.beginWait hnext (.some hcycle)
        | advanced => exact kept.endCycle hnext hcycle

/-- A wait executes nothing, so the first call does not get out of step in it. -/
theorem resume_waiting (kept : lockstep.Kept rig rig') (hhost : lockstep.hosts h k) (x : Nibble)
    {c c' : Option Cycle} (hcycle : c.Rel lockstep.cycles c') {p q : Poll} (hpoll : lockstep.polls p q) :
    (h.resume rig (.waiting x c) p).InStep lockstep (k.resume rig' (.waiting x c') q) := by
  obtain ⟨polled, polled', heard, heq, heq', hpolled⟩ := split_pair (kept.poll hhost hpoll)
  cases heard with
  | lost reason =>
      simp only [Host.resume, heq, heq']
      exact kept.fail hpolled hcycle _
  | quit =>
      simp only [Host.resume, heq, heq']
      exact kept.giveUp (kept.abandon hpolled) hcycle
  | goOn =>
      simp only [Host.resume, heq, heq', kept.waiting hpolled]
      split
      · exact kept.answered hpolled x hcycle
      · exact kept.stayWaiting hpolled x hcycle

/-- However many polls the first call takes before it is over, the second has taken as many. -/
theorem feed (kept : lockstep.Kept rig rig') {polls polls' : List Poll}
    (hpolls : List.Forall₂ lockstep.polls polls polls') {stage stage' : Stage}
    (hstage : stage.InStep lockstep stage') :
    (stage.feed rig polls).1.On lockstep.away ∨
      ∃ next left, stage'.feed rig' polls' = next.feed rig' left ∧
        (stage.feed rig polls).1.InStep lockstep next ∧
        List.Forall₂ lockstep.polls (stage.feed rig polls).2 left := by
  induction hpolls generalizing stage stage' with
  | nil =>
      right
      refine ⟨stage', [], rfl, ?_, ?_⟩ <;> cases stage <;> first | exact hstage | exact .nil
  | cons hpoll hpolls ih =>
      cases hstage with
      | top hcycle hhost =>
          rcases kept.resume_top hhost hcycle hpoll with hnext | hnext
          · left
            rw [Stage.feed]
            exact kept.escape.feed (fun _ poll => kept.escape_poll poll) _ hnext
          · exact ih hnext
      | waiting x hcycle hhost => exact ih (kept.resume_waiting hhost x hcycle hpoll)
      | ended hending hhost => exact .inr ⟨_, _, rfl, .ended hending hhost, .cons hpoll hpolls⟩
      | limit hlimit => exact .inr ⟨_, _, rfl, .limit hlimit, .cons hpoll hpolls⟩
      | stalled => exact .inr ⟨_, _, rfl, .stalled, .cons hpoll hpolls⟩

end Kept

/-! ### Calls with limits that they reach together -/

/-- A lockstep in which both calls reach their limits after the same cycle. -/
def together (hosts : Host → Host → Prop) (cycles : Cycle → Cycle → Prop) (polls : Poll → Poll → Prop)
    (escapes : Host → Prop) : Lockstep where
  hosts
  cycles
  polls
  limits h stage := ∃ k, stage = .ended .cycleLimit k ∧ hosts h k
  escapes

section Together

variable {rig rig' : Rig} {hosts : Host → Host → Prop} {cycles : Cycle → Cycle → Prop}
  {polls : Poll → Poll → Prop} {escapes : Host → Prop}

theorem beginCycle_together
    (hfinish : ∀ {h h' k k' : Host} {ending : Ending}, hosts h k → h.finish rig ending = .ended ending h' →
      k.finish rig' ending = .ended ending k' → hosts h' k')
    {h k : Host} (hhost : hosts h k) {limit limit' : Option Nat} {done done' : Nat}
    (hlimit : limit.any (· ≤ done) = limit'.any (· ≤ done'))
    (hcycle : cycles ⟨limit, done, h.clock⟩ ⟨limit', done', k.clock⟩) :
    (h.beginCycle rig limit done).InStep (together hosts cycles polls escapes)
      (k.beginCycle rig' limit' done') := by
  unfold Host.beginCycle
  rw [hlimit]
  split
  · obtain ⟨h', hended⟩ := h.exists_finish rig .cycleLimit
    obtain ⟨k', hended'⟩ := k.exists_finish rig' .cycleLimit
    rw [hended, hended']
    exact .limit ⟨k', rfl, hfinish hhost hended hended'⟩
  · exact .top hcycle hhost

/-- The second call is over, or out of polls, when the first is. -/
theorem feed_of_inStep {stage next : Stage} {ps qs : List Poll}
    (hstage : (stage.feed rig ps).1.InStep (together hosts cycles polls escapes) next)
    (hleft : List.Forall₂ polls (stage.feed rig ps).2 qs) : next.feed rig' qs = (next, qs) := by
  have hspent : ∀ phase h, (stage.feed rig ps).1 = .running phase h → (stage.feed rig ps).2 = [] :=
    fun _ _ => Stage.left_eq_nil_of_running
  generalize stage.feed rig ps = fed at hstage hleft hspent
  obtain ⟨first, left⟩ := fed
  cases hstage with
  | top hcycle hhost =>
      obtain rfl := hspent _ _ rfl
      cases hleft
      rfl
  | waiting x hcycle hhost =>
      obtain rfl := hspent _ _ rfl
      cases hleft
      rfl
  | ended hending hhost => exact Stage.feed_ended rig' _ _ qs
  | limit hlimit =>
      obtain ⟨k, rfl, -⟩ := hlimit
      exact Stage.feed_ended rig' _ _ qs
  | stalled => exact Stage.feed_stalled rig' qs

theorem Kept.feed_together (kept : (together hosts cycles polls escapes).Kept rig rig')
    {ps qs : List Poll} (hpolls : List.Forall₂ polls ps qs) {stage stage' : Stage}
    (hstage : stage.InStep (together hosts cycles polls escapes) stage') :
    (stage.feed rig ps).1.On (together hosts cycles polls escapes).away ∨
      ((stage.feed rig ps).1.InStep (together hosts cycles polls escapes) (stage'.feed rig' qs).1 ∧
        List.Forall₂ polls (stage.feed rig ps).2 (stage'.feed rig' qs).2) := by
  rcases kept.feed hpolls hstage with hescapes | ⟨next, left, heq, hnext, hleft⟩
  · exact .inl hescapes
  · rw [heq, feed_of_inStep hnext hleft]
    exact .inr ⟨hnext, hleft⟩

end Together

end Lockstep

end Chip8Console
