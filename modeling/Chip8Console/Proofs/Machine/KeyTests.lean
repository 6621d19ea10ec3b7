import Chip8Console.Proofs.Keypad.Levels
import Chip8Console.Proofs.Machine.Execution
import Chip8Console.Proofs.Machine.Keypad

/-!
# What a program sees of the keys

A program sees a key only through the two instructions that test one. If the machine consumes keys, a test
that finds its key pressed lets it go, whichever way it then skips, and only a press brings it down again:
the program sees each press at most once. If the machine does not, nothing that the program does moves a
key, and each is as the last event for it has left it.
-/

namespace Chip8Console

def Action.keyEvent? : Action → Option KeyEvent
  | press key => some (.down key)
  | release key => some (.up key)
  | _ => none

namespace Machine

/-- The key that the next step tests, if what it carries out is a test. -/
def testedKey? (m : Machine) : Option Nibble :=
  (m.execution?.bind fun e => e.instruction.tested?).map fun x => Keys.named m.v[x]

/-- Whether the next step tests a key and finds it pressed. -/
def finds (m : Machine) (k : Nibble) : Bool := m.testedKey? == some k && m.keys.pressed k

variable {m : Machine} {k : Nibble} {action : Action} {actions : List Action}

theorem act_consumesKeys (hcarries : action.carriesOn) :
    (m.act action).consumesKeys = m.consumesKeys := by
  cases action with
  | step => exact (Loosens.step m).consumesKeys
  | press key => exact (pressKey_keys m key).2
  | reset => cases hcarries
  | load source => cases hcarries
  | _ => rfl

theorem after_consumesKeys (hcarries : ∀ action ∈ actions, action.carriesOn) :
    (m.after actions).consumesKeys = m.consumesKeys :=
  after_induction (P := fun next => next.consumesKeys = m.consumesKeys)
    (fun _ action haction hnext => (act_consumesKeys (hcarries action haction)).trans hnext) rfl

/-! ### Keys that are consumed -/

theorem released_of_consume {key : UInt8} (hconsumes : m.consumesKeys) :
    (m.consume key).keys.pressed (Keys.named key) = false := by
  rw [consume_eq, hconsumes, Bool.and_true]
  cases hheld : m.holdsKey key with
  | true => exact (Keys.pressed_release _ _ _).trans (by simp)
  | false => exact hheld

/-- A test that finds its key pressed leaves it up. -/
theorem released_of_finds (hconsumes : m.consumesKeys) (h : m.finds k) :
    m.step.1.keys.pressed k = false := by
  rw [finds, Bool.and_eq_true, beq_iff_eq] at h
  obtain ⟨hnone, -⟩ | ⟨w, -, hsome, -, hstep⟩ := m.execution?_cases
  · simp [testedKey?, hnone] at h
  · rw [testedKey?, hsome] at h
    obtain ⟨x, htested, rfl⟩ := Option.map_eq_some_iff.1 h.1
    obtain ⟨c, hperform⟩ := perform_of_tested { m with pc := m.pc + 2 } m.pc htested
    rw [hstep, hperform]
    exact released_of_consume ((Loosens.skipIf _ c).consumesKeys.trans hconsumes)

/-- A key that is up stays up until it is pressed. -/
theorem released_act (hcarries : action.carriesOn)
    (hother : ∀ key, action = .press key → Keys.named key ≠ k) (h : m.keys.pressed k = false) :
    (m.act action).keys.pressed k = false := by
  cases action with
  | step =>
      apply Bool.eq_false_iff.2
      intro hpressed
      rw [(Loosens.step m).pressed k hpressed] at h
      cases h
  | press key =>
      rw [act, (pressKey_keys m key).1, Keys.pressed_press, h, decide_eq_false (hother key rfl)]
      rfl
  | release key =>
      exact (Keys.pressed_release _ _ _).trans (by rw [h, Bool.and_false])
  | reset => cases hcarries
  | load source => cases hcarries
  | _ => exact h

theorem released_after (hcarries : ∀ action ∈ actions, action.carriesOn)
    (hother : ∀ key, .press key ∈ actions → Keys.named key ≠ k) (h : m.keys.pressed k = false) :
    (m.after actions).keys.pressed k = false :=
  after_induction (P := fun next => next.keys.pressed k = false)
    (fun _ action haction hnext => released_act (hcarries action haction)
      (fun key hkey => hother key (hkey ▸ haction)) hnext) h

/-- A key that is found pressed twice has been pressed in between. -/
theorem exists_press_of_finds (hconsumes : m.consumesKeys)
    (hcarries : ∀ action ∈ actions, action.carriesOn) (hfirst : m.finds k)
    (hagain : (m.step.1.after actions).finds k) :
    ∃ key, .press key ∈ actions ∧ Keys.named key = k := by
  apply Classical.byContradiction
  intro hnever
  have hother : ∀ key, .press key ∈ actions → Keys.named key ≠ k := fun key hkey hk =>
    hnever ⟨key, hkey, hk⟩
  -- The first test has let the key go, and nothing since has brought it down.
  have hreleased := released_after hcarries hother (released_of_finds hconsumes hfirst)
  rw [finds, hreleased, Bool.and_false] at hagain
  cases hagain

/-! ### Keys that are not -/

theorem pressed_act (hkeeps : m.consumesKeys = false) (hcarries : action.carriesOn) :
    (m.act action).keys.pressed k =
      levelAfter k (m.keys.pressed k) ([action].filterMap Action.keyEvent?) := by
  cases action with
  | step => exact congrArg (·.pressed k) ((Loosens.step m).kept hkeeps)
  | press key =>
      rw [act, (pressKey_keys m key).1, Keys.pressed_press]
      exact levelAfter_down.symm
  | release key => exact (Keys.pressed_release _ _ _).trans levelAfter_up.symm
  | reset => cases hcarries
  | load source => cases hcarries
  | _ => rfl

theorem pressed_after (hkeeps : m.consumesKeys = false)
    (hcarries : ∀ action ∈ actions, action.carriesOn) :
    (m.after actions).keys.pressed k =
      levelAfter k (m.keys.pressed k) (actions.filterMap Action.keyEvent?) := by
  induction actions generalizing m with
  | nil => rfl
  | cons action actions ih =>
      have hfirst : action.carriesOn := hcarries action List.mem_cons_self
      have hevents : (action :: actions).filterMap Action.keyEvent? =
          [action].filterMap Action.keyEvent? ++ actions.filterMap Action.keyEvent? :=
        List.filterMap_append (l := [action])
      rw [hevents, levelAfter_append, ← pressed_act hkeeps hfirst]
      exact ih ((act_consumesKeys hfirst).trans hkeeps) fun later hlater =>
        hcarries later (List.mem_cons_of_mem _ hlater)

/-- Whatever goes on short of a new start, a program finds a key pressed twice only if it has been pressed
in between, when keys are consumed. When they are not, no step changes a key, and each is down exactly if
it went down last, or was down before if nothing happened to it. -/
theorem press_seen_once (m : Machine) :
    (m.consumesKeys → ∀ before between : List Action,
      (∀ action ∈ before ++ between, action.carriesOn) → ∀ k,
        (m.after before).finds k → (m.after (before ++ .step :: between)).finds k →
          ∃ key, .press key ∈ between ∧ Keys.named key = k) ∧
      (m.consumesKeys = false → ∀ actions : List Action, (∀ action ∈ actions, action.carriesOn) →
        (m.after actions).step.1.keys = (m.after actions).keys ∧
          ∀ key, (m.after actions).holdsKey key =
            levelAfter (Keys.named key) (m.holdsKey key) (actions.filterMap Action.keyEvent?)) := by
  refine ⟨fun hconsumes before between hcarries k hfirst hagain => ?_,
    fun hkeeps actions hcarries => ⟨?_, fun key => pressed_after hkeeps hcarries⟩⟩
  · have hbefore : ∀ action ∈ before, action.carriesOn := fun action haction =>
      hcarries action (List.mem_append_left between haction)
    rw [after_append, after_cons] at hagain
    exact exists_press_of_finds ((after_consumesKeys hbefore).trans hconsumes)
      (fun action haction => hcarries action (List.mem_append_right before haction)) hfirst hagain
  · exact (Loosens.step _).kept ((after_consumesKeys hcarries).trans hkeeps)

/-- A machine with a key down that is about to test it twice. -/
def inquiring (consumesKeys : Bool) : Machine :=
  { holding [0xE1, 0x9E, 0x00, 0xE0, 0xE1, 0xA1] with
    v := Vector.replicate 16 0x15
    keys := Keys.none.press 5
    consumesKeys }

theorem inquiring_sees :
    (inquiring true).finds 5 ∧
      ((inquiring true).after [.step, .release 5, .press 0x25, .note]).finds 5 ∧
      (∃ key, Action.press key ∈ [.release 5, .press 0x25, .note] ∧ Keys.named key = 5) ∧
      ((inquiring false).after [.step, .press 7, .step, .tick]).holdsKey 0x25 ∧
      ((inquiring false).after [.step, .press 7, .step, .tick]).holdsKey 0x27 := by
  have hfirst : (inquiring true).finds 5 := by decide +kernel
  have hagain : ((inquiring true).after [.step, .release 5, .press 0x25, .note]).finds 5 := by
    decide +kernel
  have hpress := (press_seen_once (inquiring true)).1 rfl [] [.release 5, .press 0x25, .note]
    (by simp [Action.carriesOn]) 5 hfirst hagain
  obtain ⟨-, hlevels⟩ := (press_seen_once (inquiring false)).2 rfl [.step, .press 7, .step, .tick]
    (by simp [Action.carriesOn])
  exact ⟨hfirst, hagain, hpress, by rw [hlevels]; decide, by rw [hlevels]; decide⟩

end Machine

end Chip8Console
