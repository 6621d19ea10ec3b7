import Chip8Console.Proofs.Host.KeypadAgreement
import Mathlib.Data.List.TakeWhile

/-!
# What a host makes of events

A host hears events up to the first wish to stop; those behind it might as well not be there. If its machine
waits for a key, the first key to go down fills the register and ends the wait, so the keys after it fill
nothing. Nothing else of the machine changes but which keys are down.
-/

namespace Chip8Console

namespace KeyEvent

def isUp : KeyEvent → Bool
  | up _ => true
  | down _ | quit => false

def downKey? : KeyEvent → Option UInt8
  | down key => some key
  | up _ | quit => none

end KeyEvent

def firstDown? (es : List KeyEvent) : Option UInt8 := es.findSome? KeyEvent.downKey?

def untilQuit (es : List KeyEvent) : List KeyEvent := es.takeWhile (· != .quit)

section Events

variable {es : List KeyEvent}

theorem untilQuit_eq_self (h : .quit ∉ es) : untilQuit es = es := by
  apply List.takeWhile_eq_self_iff.2
  intro e he
  rw [bne_iff_ne]
  rintro rfl
  exact h he

theorem quit_not_mem_untilQuit (es : List KeyEvent) : .quit ∉ untilQuit es := by
  intro hquit
  have hkept := List.mem_takeWhile_imp hquit
  cases hkept

theorem quit_not_mem_of_isUp (h : es.all KeyEvent.isUp) : .quit ∉ es := by
  intro hquit
  have hup := List.all_eq_true.1 h _ hquit
  cases hup

theorem firstDown?_eq_none_of_isUp (h : es.all KeyEvent.isUp) : firstDown? es = none := by
  apply List.findSome?_eq_none_iff.2
  intro e he
  have hup := List.all_eq_true.1 h e he
  cases e with
  | up key => rfl
  | down key => cases hup
  | quit => cases hup

/-- Events that are not all keys going up, and do not ask to stop, have a key going down. -/
theorem exists_firstDown? (hdecisive : es.all KeyEvent.isUp = false) (hquit : .quit ∉ es) :
    ∃ key, firstDown? es = some key := by
  rw [← Option.isSome_iff_exists, firstDown?, List.findSome?_isSome_iff]
  obtain ⟨e, he, hup⟩ := List.all_eq_false.1 hdecisive
  refine ⟨e, he, ?_⟩
  cases e with
  | up key => exact absurd rfl hup
  | down key => rfl
  | quit => exact absurd he hquit

end Events

/-- A machine that waited for a key when it heard some events. -/
structure Machine.Hears (m : Machine) (x : Nibble) (es : List KeyEvent) (next : Machine) : Prop where
  filled : ∀ key, firstDown? es = some key →
    next.waiting = none ∧ next.v[x] = UInt8.ofNat (key.toNat % 16)
  unfilled : firstDown? es = none → next.waiting = some x ∧ next.v[x] = m.v[x]
  registers : ∀ k, k ≠ x → next.v[k] = m.v[k]
  keys : ∀ k, next.keys.pressed k = levelAfter k (m.keys.pressed k) es
  others : next = { m with v := next.v, keys := next.keys, waiting := next.waiting }

/-- A machine that has heard of no key going down waits on. -/
theorem Machine.Hears.of_firstDown?_eq_none {m next : Machine} {x : Nibble} {es : List KeyEvent}
    (h : m.Hears x es next) (hwaiting : m.waiting = some x) (hnone : firstDown? es = none) :
    next = { m with keys := next.keys } := by
  obtain ⟨hwaits, hx⟩ := h.unfilled hnone
  have hregister : ∀ k : Nibble, next.v[k] = m.v[k] := fun k => by
    by_cases hk : k = x
    · rw [hk, hx]
    · exact h.registers k hk
  have hv : next.v = m.v := Vector.ext fun k hk => hregister ⟨k, hk⟩
  rw [h.others, hv, hwaits, ← hwaiting]

namespace Host

variable {h : Host} {es : List KeyEvent}

/-- What comes behind a wish to stop is not heard. -/
theorem hear_eq (h : Host) (es : List KeyEvent) :
    h.hear es = ((h.hear (untilQuit es)).1, decide (.quit ∈ es)) := by
  induction es generalizing h with
  | nil => rfl
  | cons e es ih =>
      cases e with
      | quit => rfl
      | down key =>
          have hmem : .quit ∈ KeyEvent.down key :: es ↔ .quit ∈ es := by simp
          rw [decide_eq_decide.2 hmem]
          exact ih _
      | up key =>
          have hmem : .quit ∈ KeyEvent.up key :: es ↔ .quit ∈ es := by simp
          rw [decide_eq_decide.2 hmem]
          exact ih _

theorem hear_polls (h : Host) (es : List KeyEvent) : (h.hear es).1.polls = h.polls := by
  induction es generalizing h with
  | nil => rfl
  | cons e es ih =>
      cases e with
      | quit => rfl
      | down key =>
          refine (ih _).trans ?_
          rw [noteAll_eq]
      | up key => exact ih _

/-- Without a wait, events change nothing but which keys are down. -/
theorem hear_machine_of_none (hnone : h.machine.waiting = none) (es : List KeyEvent) :
    (h.hear es).1.machine = { h.machine with keys := (h.hear es).1.machine.keys } := by
  induction es generalizing h with
  | nil => rfl
  | cons e es ih =>
      cases e with
      | quit => rfl
      | down key =>
          have hpressed : (h.noteAll (Notice.ofPressKey h.machine key)).machine.pressKey key =
              { h.machine with keys := h.machine.keys.press (Keys.named key) } := by
            rw [noteAll_machine, Machine.pressKey_of_waiting_eq_none hnone]
          rw [hear]
          refine (ih ?_).trans ?_
          · rw [hpressed]
            exact hnone
          · rw [hpressed]
      | up key => exact ih hnone

/-- A key that goes down in a wait ends it, and what comes after changes only which keys are down. -/
theorem hear_machine_of_down {x : Nibble} (hwaiting : h.machine.waiting = some x) (key : UInt8)
    (es : List KeyEvent) :
    (h.hear (.down key :: es)).1.machine =
      { h.machine with
        keys := (h.hear (.down key :: es)).1.machine.keys
        waiting := none
        v := Nibble.put h.machine.v x (UInt8.ofNat (key.toNat % 16)) } := by
  have hpressed : (h.noteAll (Notice.ofPressKey h.machine key)).machine.pressKey key =
      { h.machine with keys := h.machine.keys.press (Keys.named key), waiting := none }.set x
        (UInt8.ofNat (key.toNat % 16)) := by
    rw [noteAll_machine, Machine.pressKey_of_waiting_eq_some hwaiting]
    rfl
  rw [hear]
  refine (hear_machine_of_none ?_ es).trans ?_
  · rw [hpressed]
    rfl
  · rw [hpressed]
    rfl

/-- Events that a waiting machine hears fill its register with the first key to go down. -/
theorem hears {x : Nibble} (hwaiting : h.machine.waiting = some x) (hgoesOn : .quit ∉ es) :
    h.machine.Hears x es (h.hear es).1.machine := by
  have hkeys := (Heeds.hear h hgoesOn).pressed
  induction es generalizing h with
  | nil =>
      refine ⟨fun _ hkey => ?_, fun _ => ⟨hwaiting, rfl⟩, fun _ _ => rfl, hkeys, rfl⟩
      cases hkey
  | cons e es ih =>
      rw [List.mem_cons, not_or] at hgoesOn
      cases e with
      | quit => exact absurd rfl hgoesOn.1
      | up key =>
          have hrest := ih (h := { h with machine := h.machine.releaseKey key }) hwaiting hgoesOn.2
            (Heeds.hear _ hgoesOn.2).pressed
          exact ⟨hrest.filled, hrest.unfilled, hrest.registers, hkeys, hrest.others⟩
      | down key =>
          have hlast := hear_machine_of_down hwaiting key es
          generalize (h.hear (.down key :: es)).1.machine = after at hkeys hlast ⊢
          have hregister : ∀ k, after.v[k] =
              if x = k then UInt8.ofNat (key.toNat % 16) else h.machine.v[k] := fun k => by
            rw [hlast]
            exact getElem_put_nibble _ _ _ _
          refine ⟨fun other hother => ?_, fun hnever => ?_, fun k hk => ?_, hkeys, ?_⟩
          · cases hother
            exact ⟨congrArg Machine.waiting hlast, (hregister x).trans (if_pos rfl)⟩
          · cases hnever
          · exact (hregister k).trans (if_neg (Ne.symm hk))
          · rw [hlast]

end Host

end Chip8Console
