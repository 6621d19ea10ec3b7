import Chip8Console.Proofs.Machine.Independence

/-!
# Events among steps

Between two steps a host lets the timers tick and the keys go down and up. A tick makes no difference to a
step that has nothing to do with the timers, nor a key to one that tests no key, so such an event may as
well come after the step as before it. A key that goes down also answers a wait: it must not find one
pending, nor the step begin one.

So it does not matter how the events of a run are placed among steps that have nothing to do with them.
All that counts is their order.
-/

namespace Chip8Console

/-- Actions that are this many steps and, in this order, these events among them. -/
inductive Placed : List Action → Nat → List Action → Prop where
  | nil : Placed [] 0 []
  | step {events actions : List Action} {n : Nat} (h : Placed events n actions) :
      Placed events (n + 1) (.step :: actions)
  | event {events actions : List Action} {n : Nat} (e : Action) (he : e ≠ .step)
      (h : Placed events n actions) : Placed (e :: events) n (e :: actions)

namespace Machine

/-- The next step has nothing to do with an event. -/
def Indifferent (m : Machine) : Action → Prop
  | .tick => ∀ i, m.upcoming = some i → i.timed = false
  | .release _ => ∀ i, m.upcoming = some i → i.tested? = none
  | .press _ => m.waiting = none ∧
      ∀ i, m.upcoming = some i → i.tested? = none ∧ ∀ x, i ≠ .awaitKey x
  | _ => False

variable {m : Machine}

/-! ### One event and one step -/

theorem concerns_keys {instruction : Instruction} (h : instruction.tested? = none) (ks : Keys) :
    instruction.concerns (.keys ks) = false := by
  rw [Instruction.concerns, h]
  rfl

theorem step_timers (h : ∀ i, m.upcoming = some i → i.timed = false) :
    m.step.1.timers = m.timers :=
  congrArg (fun done => done.1.timers) (step_replace (.timers m.timers) h)

theorem step_keys (h : ∀ i, m.upcoming = some i → i.tested? = none) : m.step.1.keys = m.keys :=
  congrArg (fun done => done.1.keys)
    (step_replace (.keys m.keys) fun i hi => concerns_keys (h i hi) _)

theorem step_waiting (hnone : m.waiting = none)
    (h : ∀ i, m.upcoming = some i → ∀ x, i ≠ .awaitKey x) : m.step.1.waiting = none := by
  cases hupcoming : m.upcoming with
  | some i => exact ((Footprint.step hupcoming).waiting (h i hupcoming)).trans hnone
  | none => 
      obtain ⟨f, hfetch⟩ : ∃ f, m.fetch = .error f := by
        cases hfetch : m.fetch with
        | error f => exact ⟨f, rfl⟩
        | ok w => simp [upcoming_of_fetch hnone hfetch] at hupcoming
      rw [step_of_fetch_error hnone hfetch]
      exact hnone

/-- A step and an event that it has nothing to do with can change places. -/
theorem step_act {event : Action} (h : m.Indifferent event) :
    (m.act event).step = (m.step.1.act event, m.step.2) := by
  cases event with
  | tick =>
      calc
        m.tick.step = (m.step.1.replace (.timers m.timers.tick), m.step.2) :=
          step_replace (.timers m.timers.tick) h
        _ = (m.step.1.tick, m.step.2) := by
          rw [← step_timers h]
          rfl
  | release key =>
      calc
        (m.releaseKey key).step =
            (m.step.1.replace (.keys (m.keys.release (Keys.named key))), m.step.2) :=
          step_replace (.keys _) fun i hi => concerns_keys (h i hi) _
        _ = (m.step.1.releaseKey key, m.step.2) := by
          rw [← step_keys h]
          rfl
  | press key =>
      obtain ⟨hnone, hother⟩ := h
      have hwaiting : m.step.1.waiting = none := step_waiting hnone fun i hi => (hother i hi).2
      rw [act, act, pressKey_of_waiting_eq_none hnone, pressKey_of_waiting_eq_none hwaiting,
        step_keys fun i hi => (hother i hi).1]
      exact step_replace (.keys _) fun i hi => concerns_keys (hother i hi).1 _
  | _ => exact h.elim

/-- An instruction that sets or reads no timer, tests no key and waits for none has nothing to do with any
event. -/
theorem Indifferent.of_upcoming {i : Instruction} (hnone : m.waiting = none)
    (hupcoming : m.upcoming = some i) (htimed : i.timed = false) (htested : i.tested? = none)
    (hawait : ∀ x, i ≠ .awaitKey x) {event : Action}
    (hevent : event.routine ∧ event ≠ .step ∧ event ≠ .note) : m.Indifferent event := by
  have hunique : ∀ j, m.upcoming = some j → j = i := fun j hj =>
    Option.some.inj (hj.symm.trans hupcoming)
  cases event with
  | tick => exact fun j hj => hunique j hj ▸ htimed
  | release key => exact fun j hj => hunique j hj ▸ htested
  | press key => exact ⟨hnone, fun j hj => hunique j hj ▸ ⟨htested, hawait⟩⟩
  | step => exact absurd rfl hevent.2.1
  | note => exact absurd rfl hevent.2.2
  | _ => cases hevent.1

/-- An event leaves alone whether the next step has to do with another one. -/
theorem Indifferent.act {first event : Action} (hfirst : m.Indifferent first)
    (h : m.Indifferent event) : (m.act first).Indifferent event := by
  cases first with
  | tick => cases event <;> exact h
  | release key => cases event <;> exact h
  | press key =>
      rw [Machine.act, pressKey_of_waiting_eq_none hfirst.1]
      cases event <;> exact h
  | _ => exact hfirst.elim

/-! ### A run of steps with events among them -/

/-- An event and a run of steps that have nothing to do with it can change places. -/
theorem act_steps {event : Action} {n : Nat}
    (h : ∀ j < n, (m.after (List.replicate j .step)).Indifferent event) :
    (m.act event).after (List.replicate n .step) = (m.after (List.replicate n .step)).act event ∧
      (m.act event).outcomes (List.replicate n .step) = m.outcomes (List.replicate n .step) := by
  induction n generalizing m with
  | zero => exact ⟨rfl, rfl⟩
  | succ n ih =>
      have hstep : (m.act event).step = (m.step.1.act event, m.step.2) :=
        step_act (h 0 (Nat.succ_pos n))
      have hfirst : (m.act event).act .step = m.step.1.act event := congrArg Prod.fst hstep
      obtain ⟨hafter, houtcomes⟩ := ih (m := m.step.1) fun j hj => h (j + 1) (Nat.succ_lt_succ hj)
      rw [List.replicate_succ, after_cons, after_cons, outcomes, outcomes, hfirst, hstep]
      exact ⟨hafter, congrArg (m.step.2 :: ·) houtcomes⟩

/-- However events are placed among steps that have nothing to do with them, they may as well all come
after the steps. -/
theorem after_of_placed {events actions : List Action} {n : Nat} (hplaced : Placed events n actions)
    (h : ∀ j < n, ∀ event ∈ events, (m.after (List.replicate j .step)).Indifferent event) :
    m.after actions = (m.after (List.replicate n .step)).after events ∧
      m.outcomes actions = m.outcomes (List.replicate n .step) := by
  induction hplaced generalizing m with
  | nil => exact ⟨rfl, rfl⟩
  | step hplaced ih =>
      obtain ⟨hafter, houtcomes⟩ := ih (m := m.step.1) fun j hj => h (j + 1) (Nat.succ_lt_succ hj)
      exact ⟨hafter, congrArg (m.step.2 :: ·) houtcomes⟩
  | @event events actions n e he hplaced ih =>
      -- The event passes over the steps, behind which the others then are, once these are known to have
      -- nothing to do with the steps of a machine that has had the event.
      have hlater : ∀ j < n, ∀ event ∈ events,
          ((m.act e).after (List.replicate j .step)).Indifferent event := by
        intro j hj event hevent
        rw [(act_steps fun k hk => h k (Nat.lt_trans hk hj) e List.mem_cons_self).1]
        exact (h j hj e List.mem_cons_self).act (h j hj event (List.mem_cons_of_mem e hevent))
      obtain ⟨hafter, houtcomes⟩ := ih hlater
      obtain ⟨hmoved, hsame⟩ := act_steps fun j hj => h j hj e List.mem_cons_self
      refine ⟨?_, ?_⟩
      · rw [after_cons, after_cons, hafter, hmoved]
      · rw [← hsame, ← houtcomes]
        cases e with
        | step => exact absurd rfl he
        | _ => rfl

/-- A host's events and the steps that have nothing to do with them can change places, one by one and
over whole runs: a run's end and the ends of its steps do not depend on how the events are placed. -/
theorem events_commute (m : Machine) :
    (∀ event, m.Indifferent event → (m.act event).step = (m.step.1.act event, m.step.2)) ∧
      ∀ events n, (∀ j < n, ∀ event ∈ events,
          (m.after (List.replicate j .step)).Indifferent event) →
        ∀ actions actions', Placed events n actions → Placed events n actions' →
          m.after actions = m.after actions' ∧ m.outcomes actions = m.outcomes actions' := by
  refine ⟨fun event h => step_act h, fun events n h actions actions' hplaced hplaced' => ?_⟩
  obtain ⟨hafter, houtcomes⟩ := after_of_placed hplaced h
  obtain ⟨hafter', houtcomes'⟩ := after_of_placed hplaced' h
  exact ⟨hafter.trans hafter'.symm, houtcomes.trans houtcomes'.symm⟩

/-- A machine with running timers and a key down that is about to add up two registers. -/
def summing : Machine :=
  { holding [0x61, 0x05, 0x82, 0x14] with timers := ⟨9, 1⟩, keys := Keys.none.press 3 }

theorem summing_events :
    (summing.act .tick).step = (summing.step.1.act .tick, summing.step.2) ∧
      summing.after [.tick, .press 0x1B, .step, .release 3, .step] =
        summing.after [.step, .step, .tick, .press 0x1B, .release 3] := by
  have hfirst : summing.upcoming = some (.setByte 1 5) := by decide +kernel
  have hsecond : summing.step.1.upcoming = some (.add 2 1) := by decide +kernel
  have hnone : summing.step.1.waiting = none := by decide +kernel
  have hindifferent : ∀ j < 2, ∀ event ∈ [.tick, .press 0x1B, .release 3],
      (summing.after (List.replicate j .step)).Indifferent event := by
    intro j hj event hevent
    have hhost : event.routine ∧ event ≠ .step ∧ event ≠ .note := by
      simp only [List.mem_cons, List.not_mem_nil, or_false] at hevent
      obtain rfl | rfl | rfl := hevent <;> exact ⟨rfl, nofun, nofun⟩
    obtain rfl | rfl : j = 0 ∨ j = 1 := by omega
    · exact .of_upcoming rfl hfirst rfl rfl nofun hhost
    · change summing.step.1.Indifferent event
      exact .of_upcoming hnone hsecond rfl rfl nofun hhost
  obtain ⟨hone, hrun⟩ := events_commute summing
  refine ⟨hone .tick (hindifferent 0 (by decide) .tick (by simp)), ?_⟩
  have hearly : Placed [.tick, .press 0x1B, .release 3] 2
      [.tick, .press 0x1B, .step, .release 3, .step] :=
    .event _ nofun (.event _ nofun (.step (.event _ nofun (.step .nil))))
  have hlate : Placed [.tick, .press 0x1B, .release 3] 2
      [.step, .step, .tick, .press 0x1B, .release 3] :=
    .step (.step (.event _ nofun (.event _ nofun (.event _ nofun .nil))))
  exact (hrun _ 2 hindifferent _ _ hearly hlate).1

end Machine

end Chip8Console
