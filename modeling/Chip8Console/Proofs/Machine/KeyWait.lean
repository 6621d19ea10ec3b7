import Chip8Console.Proofs.Machine.Bounds

/-!
# The wait for a key

An instruction that waits for a key leaves the counter behind itself and the number of a register with
the machine. Until a key goes down nothing that a host does touches either: steps are parked, and keys
that go up, ticks of the timers and notes about the screen concern other parts of the machine. A key
that is down already is no different from one that is not, since only its going down answers.

The first key to go down fills the register and ends the wait. From then on keys fill nothing, and the
next step finds the counter where the wait has left it.
-/

namespace Chip8Console

namespace Action

/-- Whether an action is one of those that can happen during a key wait and do not answer it. -/
def idle : Action → Bool
  | step | release _ | tick | note => true
  | press _ | abandon | reset | load _ => false

/-- Whether an action is one of those that can happen between two steps. -/
def interim : Action → Bool
  | press _ | release _ | tick | note => true
  | step | abandon | reset | load _ => false

end Action

namespace Machine

/-- What is left of a machine that waits when some of its keys have gone up, its timers have ticked
and its screen has been seen. -/
structure Idled (m idled : Machine) : Prop where
  others : idled = { m with keys := idled.keys, timers := idled.timers, stale := idled.stale }
  keys : ∀ k, idled.keys.pressed k → m.keys.pressed k

namespace Idled

variable {m idled : Machine}

theorem refl (m : Machine) : m.Idled m := ⟨rfl, fun _ hk => hk⟩

theorem waiting (h : m.Idled idled) : idled.waiting = m.waiting := by
  rw [h.others]

theorem act {x : Nibble} (hwaiting : m.waiting = some x) (h : m.Idled idled) {action : Action}
    (haction : action.idle) : m.Idled (idled.act action) := by
  cases action with
  | step =>
      rw [Machine.act, step_of_waiting (h.waiting.trans hwaiting)]
      exact h
  | release key =>
      refine ⟨?_, fun k hk => h.keys k ?_⟩
      · rw [h.others]
        rfl
      · rw [Machine.act, releaseKey, Keys.pressed_release, Bool.and_eq_true] at hk
        exact hk.2
  | tick =>
      refine ⟨?_, h.keys⟩
      rw [h.others]
      rfl
  | note =>
      refine ⟨?_, h.keys⟩
      rw [h.others]
      rfl
  | press key => cases haction
  | abandon => cases haction
  | reset => cases haction
  | load source => cases haction

theorem after {x : Nibble} (hwaiting : m.waiting = some x) {actions : List Action}
    (hactions : ∀ action ∈ actions, action.idle) : m.Idled (m.after actions) := by
  apply after_induction (P := m.Idled) ?_ (refl m)
  intro idled action hmem hidled
  exact hidled.act hwaiting (hactions action hmem)

/-- The key that answers a wait leaves the counter and memory as the wait has found them. -/
theorem answered {x : Nibble} (h : m.Idled idled) (hwaiting : m.waiting = some x) (key : UInt8) :
    (idled.pressKey key).waiting = none ∧ (idled.pressKey key).fetch = m.fetch ∧
      (idled.pressKey key).pc = m.pc := by
  rw [pressKey_of_waiting_eq_some (h.waiting.trans hwaiting), h.others]
  exact ⟨rfl, rfl, rfl⟩

end Idled

/-- What a machine keeps between two steps when no wait is pending. -/
structure Poised (m poised : Machine) : Prop where
  v : poised.v = m.v
  pc : poised.pc = m.pc
  ram : poised.ram = m.ram
  waiting : poised.waiting = none

namespace Poised

variable {m poised : Machine}

theorem act (h : m.Poised poised) {action : Action} (haction : action.interim) :
    m.Poised (poised.act action) := by
  cases action with
  | press key =>
      rw [Machine.act, pressKey_of_waiting_eq_none h.waiting]
      exact ⟨h.v, h.pc, h.ram, h.waiting⟩
  | release key => exact ⟨h.v, h.pc, h.ram, h.waiting⟩
  | tick => exact ⟨h.v, h.pc, h.ram, h.waiting⟩
  | note => exact ⟨h.v, h.pc, h.ram, h.waiting⟩
  | step => cases haction
  | abandon => cases haction
  | reset => cases haction
  | load source => cases haction

theorem after (hnone : m.waiting = none) {actions : List Action}
    (hactions : ∀ action ∈ actions, action.interim) : m.Poised (m.after actions) := by
  apply after_induction (P := m.Poised) ?_ ⟨rfl, rfl, rfl, hnone⟩
  intro poised action hmem hpoised
  exact hpoised.act (hactions action hmem)

theorem fetch_eq (h : m.Poised poised) : poised.fetch = m.fetch := by
  rw [fetch, fetch, h.ram, h.pc]

end Poised

/-- A machine about to wait for a key waits through everything but a key that goes down; the first to
do so goes into the register, and then the machine goes on behind the instruction. -/
theorem parked_until_pressed {m : Machine} {w : Word} {x : Nibble} (hnone : m.waiting = none)
    (hfetch : m.fetch = .ok w) (hw : Instruction.ofWord w = .awaitKey x) :
    m.step = ({ m with pc := m.pc + 2, waiting := some x }, .parked) ∧
      (m.pc + 2).toNat = m.pc.toNat + 2 ∧
      ∀ before : List Action, (∀ action ∈ before, action.idle) →
        let waited := m.step.1.after before
        m.step.1.Idled waited ∧ waited.step = (waited, .parked) ∧
          ∀ key : UInt8,
            waited.pressKey key =
                { waited with
                  keys := waited.keys.press (Keys.named key)
                  waiting := none
                  v := Nibble.put waited.v x (UInt8.ofNat (key.toNat % 16)) } ∧
              ∀ between : List Action, (∀ action ∈ between, action.interim) →
                let resumed := (waited.pressKey key).after between
                resumed.v = (waited.pressKey key).v ∧ resumed.pc = m.pc + 2 ∧
                  (∀ next, m.ram.word (m.pc + 2) = .ok next →
                    resumed.step = resumed.exec (.ofWord next)) ∧
                  ∀ f, m.ram.word (m.pc + 2) = .error f → resumed.step = (resumed, .faulted f) := by
  have hstep : m.step = ({ m with pc := m.pc + 2, waiting := some x }, .parked) := by
    rw [step_of_fetch hnone hfetch, hw]
    rfl
  refine ⟨hstep, (toNat_pc_add_two hfetch).1, ?_⟩
  rw [hstep]
  intro before hbefore waited
  have hidled : Idled { m with pc := m.pc + 2, waiting := some x } waited := .after rfl hbefore
  have hpressed := pressKey_of_waiting_eq_some hidled.waiting
  refine ⟨hidled, step_of_waiting hidled.waiting, ?_⟩
  intro key
  refine ⟨hpressed key, ?_⟩
  intro between hbetween resumed
  obtain ⟨hended, hfetched, hpc⟩ := hidled.answered rfl key
  have hpoised : (waited.pressKey key).Poised resumed := .after hended hbetween
  have hnext : resumed.fetch = m.ram.word (m.pc + 2) := hpoised.fetch_eq.trans hfetched
  refine ⟨hpoised.v, hpoised.pc.trans hpc, ?_, ?_⟩
  · intro next hok
    exact step_of_fetch hpoised.waiting (hnext.trans hok)
  · intro f herror
    exact step_of_fetch_error hpoised.waiting (hnext.trans herror)

/-- A machine with a key down that is about to wait for a key, and then sets another register. -/
def expectant : Machine :=
  { holding [0xF7, 0x0A, 0x68, 0x01] with keys := Keys.none.press 9 }

theorem expectant_resumes :
    let waited := expectant.step.1.after [.step, .release 9, .tick, .note, .step]
    let resumed := (waited.pressKey 0x19).after [.press 3, .release 0xF9, .tick]
    waited.step = (waited, .parked) ∧ resumed.v[(7 : Nibble)] = 9 ∧
      resumed.step = resumed.exec (.setByte 8 1) := by
  have hword : expectant.fetch = .ok 0xF70A := eq_ok_of_toOption (by decide +kernel)
  have hnext : expectant.ram.word (expectant.pc + 2) = .ok 0x6801 :=
    eq_ok_of_toOption (by decide +kernel)
  obtain ⟨-, -, hwait⟩ := parked_until_pressed (x := 7) rfl hword (by decide)
  obtain ⟨-, hparked, hanswer⟩ :=
    hwait [.step, .release 9, .tick, .note, .step] (by simp [Action.idle])
  obtain ⟨hpressed, hresume⟩ := hanswer 0x19
  obtain ⟨hv, -, hgoesOn, -⟩ := hresume [.press 3, .release 0xF9, .tick] (by simp [Action.interim])
  refine ⟨hparked, ?_, hgoesOn 0x6801 hnext⟩
  rw [hv, hpressed]
  exact getElem_put_nibble _ 7 7 9

end Machine

end Chip8Console
