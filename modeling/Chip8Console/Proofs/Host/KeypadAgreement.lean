import Chip8Console.Proofs.Host.Session
import Chip8Console.Proofs.Keypad.Holding
import Chip8Console.Proofs.Machine.Keypad

/-!
# The keypad follows the keyboard

Two tables say which keys are down: that of the keyboard, which a poll brings up to date, and the keypad
of the machine, which hears of nothing but the edges. They agree after every poll and until the next.
Between two polls the keyboard does not change, and the machine's keypad changes only where a skip
instruction consumes a key. So the keys pressed in the machine are at all times among those held on the
keyboard, and they are the same if keys are not consumed.
-/

namespace Chip8Console

def Stage.runs (p : Host → Bool) : Stage → Bool
  | .running _ h => p h
  | _ => false

theorem Stage.exists_of_runs {p : Host → Bool} {stage : Stage} (h : stage.runs p) :
    ∃ phase host, stage = .running phase host ∧ p host := by
  cases stage with
  | running phase host => exact ⟨phase, host, rfl, h⟩
  | ended ending host => cases h
  | stalled => cases h

namespace Host

/-! ## From one poll to the next -/

/-- A host that has done some of the things that a host does between two polls. -/
structure Settles (h next : Host) : Prop where
  keyboard : next.keyboard = h.keyboard
  clock : h.clock ≤ next.clock
  machine : h.machine.Loosens next.machine

namespace Settles

variable {rig : Rig} {h middle next : Host}

theorem refl (h : Host) : h.Settles h := ⟨rfl, Nat.le_refl _, .refl _⟩

theorem trans (first : h.Settles middle) (second : middle.Settles next) : h.Settles next :=
  ⟨second.keyboard.trans first.keyboard, Nat.le_trans first.clock second.clock,
    first.machine.trans second.machine⟩

theorem of_spoken (hspoken : h.Spoken next) : h.Settles next :=
  ⟨hspoken.keyboard, Nat.le_of_eq hspoken.clock.symm, hspoken.machine ▸ .refl _⟩

theorem record (h : Host) (e : Event) : h.Settles (h.record e) := ⟨rfl, Nat.le_refl _, .refl _⟩

theorem elapse (h : Host) (time : Nat) : h.Settles (h.elapse time) :=
  ⟨rfl, Nat.le_add_right _ _, .refl _⟩

theorem step (h : Host) : h.Settles h.step.1 := by
  rw [step_eq, recordAll_eq, noteAll_eq]
  exact ⟨rfl, Nat.le_refl _, .step h.machine⟩

theorem present (rig : Rig) (h : Host) : h.Settles (h.present rig).1 := by
  unfold Host.present Host.draw
  split
  · exact ⟨rfl, Nat.le_refl _, .of_keys_eq rfl rfl⟩
  · exact ⟨rfl, Nat.le_add_right _ _, .of_keys_eq rfl rfl⟩

theorem catchUp (hcaught : h.catchUp rig = some next) : h.Settles next := by
  obtain ⟨pacer, timers, ticks, -, rfl⟩ := catchUp_eq_some hcaught
  have hticked : h.Settles (h.ticked pacer timers) := ⟨rfl, Nat.le_refl _, .of_keys_eq rfl rfl⟩
  exact (hticked.trans (of_spoken (.followTone rig _))).trans (record _ _)

theorem finish {ending : Ending} (hended : h.finish rig ending = .ended ending next) :
    h.Settles next := by
  have hsilenced : h.Settles (h.silence rig) := of_spoken (.silence rig h)
  obtain ⟨n, rfl⟩ := exists_note_of_finish hended
  exact hsilenced.trans (record _ _)

theorem does (hdoes : Does rig h next) : h.Settles next := by
  cases hdoes with
  | record => exact record h _
  | elapse time => exact elapse h time
  | step => exact step h
  | present => exact present rig h
  | abandon => exact ⟨rfl, Nat.le_refl _, .of_keys_eq rfl rfl⟩
  | recount => exact ⟨rfl, Nat.le_refl _, .refl _⟩
  | catchUp hcaught => exact catchUp hcaught
  | finish ending hended => exact finish hended

theorem meanwhile (hm : h.Meanwhile rig next) : h.Settles next :=
  hm.induction (P := h.Settles) (fun _ _ hdoes hh => hh.trans (does hdoes)) (refl h)

end Settles

/-! ## What a poll does -/

/-- A host that has heard all of some events. -/
structure Heeds (h : Host) (es : List KeyEvent) (next : Host) : Prop where
  keyboard : next.keyboard = h.keyboard
  clock : next.clock = h.clock
  consumesKeys : next.machine.consumesKeys = h.machine.consumesKeys
  pressed : ∀ k, next.machine.keys.pressed k = levelAfter k (h.machine.keys.pressed k) es

namespace Heeds

variable {h middle next : Host} {es fs : List KeyEvent}

theorem trans (first : h.Heeds es middle) (second : middle.Heeds fs next) :
    h.Heeds (es ++ fs) next := by
  refine ⟨second.keyboard.trans first.keyboard, second.clock.trans first.clock,
    second.consumesKeys.trans first.consumesKeys, fun k => ?_⟩
  rw [second.pressed, first.pressed, levelAfter_append]

theorem down (h : Host) (key : UInt8) (ns : List Notice) :
    h.Heeds [.down key]
      { h.noteAll ns with machine := (h.noteAll ns).machine.pressKey key } := by
  obtain ⟨hkeys, hsetting⟩ := h.machine.pressKey_keys key
  rw [noteAll_eq]
  refine ⟨rfl, rfl, hsetting, fun k => ?_⟩
  rw [levelAfter_down]
  dsimp only
  rw [hkeys, Keys.pressed_press]

theorem up (h : Host) (key : UInt8) :
    h.Heeds [.up key] { h with machine := h.machine.releaseKey key } := by
  refine ⟨rfl, rfl, rfl, fun k => ?_⟩
  rw [levelAfter_up]
  exact Keys.pressed_release _ _ _

theorem hear (h : Host) {es : List KeyEvent} (hgoesOn : .quit ∉ es) : h.Heeds es (h.hear es).1 := by
  induction es generalizing h with
  | nil => exact ⟨rfl, rfl, rfl, fun _ => rfl⟩
  | cons e es ih =>
      rw [List.mem_cons, not_or] at hgoesOn
      cases e with
      | quit => exact absurd rfl hgoesOn.1
      | down key => exact (down h key (Notice.ofPressKey h.machine key)).trans (ih _ hgoesOn.2)
      | up key => exact (up h key).trans (ih _ hgoesOn.2)

/-- A poll brings the keyboard up to date and has the host hear what it reports. -/
theorem poll (h : Host) (cost : Nat) {strokes : List Keystroke}
    (hgoesOn : .quit ∉ (h.keyboard.poll (h.clock + cost) strokes).2) :
    Heeds
      { h with keyboard := (h.keyboard.poll (h.clock + cost) strokes).1, clock := h.clock + cost }
      (h.keyboard.poll (h.clock + cost) strokes).2
      (h.poll (.answered cost (.strokes strokes))).1 := by
  have hheard := hear ((h.asked cost).receive (.strokes strokes)).1 hgoesOn
  rw [poll_answered]
  have hreceived : ((h.asked cost).receive (.strokes strokes)).1 =
      { h.asked cost with
        keyboard := (h.keyboard.poll (h.clock + cost) strokes).1
        history := ((h.asked cost).receive (.strokes strokes)).1.history } := noteAll_eq _ _
  refine ⟨hheard.keyboard.trans ?_, hheard.clock.trans ?_, hheard.consumesKeys.trans ?_, fun k => ?_⟩
  · rw [hreceived]
  · rw [hreceived]
    rfl
  · rw [hreceived]
    rfl
  · rw [hearing]
    refine (hheard.pressed k).trans ?_
    rw [hreceived]
    rfl

end Heeds

def lastTime (batches : List Batch) : Nat := (batches.getLast?.map Batch.time).getD 0

theorem lastTime_append (batches : List Batch) (b : Batch) : lastTime (batches ++ [b]) = b.time := by
  simp [lastTime]

/-- After some batches, the keys that a keyboard holds are those last pressed less than the hold time
before the last batch. The keys pressed in the machine are among them, and are all of them if the machine
does not consume keys. -/
structure KeypadAgrees (layout : Layout) (consumes : Bool) (batches : List Batch) (h : Host) : Prop where
  held_iff : ∀ k, k ∈ h.keyboard.held ↔ layout.Holds batches (lastTime batches) k
  held_of_pressed : ∀ key, h.machine.holdsKey key → Keys.named key ∈ h.keyboard.held
  pressed_of_held : consumes = false → ∀ key, Keys.named key ∈ h.keyboard.held →
    h.machine.holdsKey key

/-- What a host keeps up from poll to poll to make its keypad agree with its keyboard. -/
structure Attends (layout : Layout) (consumes : Bool) (batches : List Batch) (h : Host) : Prop where
  layout_eq : h.keyboard.layout = layout
  recalls : h.keyboard.Recalls batches (lastTime batches)
  lastTime_le : lastTime batches ≤ h.clock
  setting : h.machine.consumesKeys = consumes
  held_of_pressed : ∀ k, h.machine.keys.pressed k → k ∈ h.keyboard.held
  pressed_of_held : consumes = false → ∀ k, k ∈ h.keyboard.held → h.machine.keys.pressed k

namespace Attends

variable {layout : Layout} {consumes : Bool} {batches : List Batch} {h next : Host}

theorem new {machine : Machine} (hfree : ∀ key, machine.holdsKey key = false) (layout : Layout)
    (timerRate : UInt32) (time : Nat) :
    (Host.new machine (.ofLayout layout) timerRate time).Attends layout machine.consumesKeys [] := by
  have hnone (k : Nibble) : k ∉ (Keyboard.ofLayout layout).held := by
    simp [Keyboard.mem_held, Keyboard.ofLayout_since]
  have hup (k : Nibble) : machine.keys.pressed k = false := by
    have hkey := hfree (UInt8.ofNat k.val)
    rw [Machine.holdsKey, Keys.named_ofNat] at hkey
    exact hkey
  refine ⟨rfl, .ofLayout layout _, Nat.zero_le _, rfl, fun k hk => ?_, fun _ k hk => ?_⟩
  · exact absurd hk (by simp [Host.new, Host.ofMachine, hup])
  · exact absurd hk (hnone k)

theorem settles (hh : h.Attends layout consumes batches) (hsettles : h.Settles next) :
    next.Attends layout consumes batches := by
  obtain ⟨hkeyboard, hclock, hsetting, hpressed, hkept⟩ := hsettles
  refine ⟨?_, ?_, Nat.le_trans hh.lastTime_le hclock, hsetting.trans hh.setting, fun k hk => ?_,
    fun hkeeps k hk => ?_⟩
  · rw [hkeyboard]
    exact hh.layout_eq
  · rw [hkeyboard]
    exact hh.recalls
  · rw [hkeyboard]
    exact hh.held_of_pressed k (hpressed k hk)
  · rw [hkeyboard] at hk
    rw [hkept (hh.setting.trans hkeeps)]
    exact hh.pressed_of_held hkeeps k hk

theorem poll (hh : h.Attends layout consumes batches) (cost : Nat) {strokes : List Keystroke}
    (hcalm : ∀ stroke ∈ strokes, ¬ Keyboard.asksToStop stroke) :
    (h.poll (.answered cost (.strokes strokes))).1.Attends layout consumes
      (batches ++ [⟨h.clock + cost, strokes⟩]) := by
  have hnow : lastTime batches ≤ h.clock + cost := Nat.le_trans hh.lastTime_le (Nat.le_add_right _ _)
  have hrecalls := hh.recalls.poll (b := ⟨h.clock + cost, strokes⟩) hnow
  have hreports := Keyboard.Reports.poll h.keyboard (h.clock + cost) strokes
  have hgoesOn : .quit ∉ (h.keyboard.poll (h.clock + cost) strokes).2 := by
    intro hquit
    obtain ⟨stroke, hmem, hstop⟩ := Keyboard.asksToStop_of_quit_mem_poll hquit
    exact hcalm stroke hmem hstop
  obtain ⟨hkeyboard, hclock, hsetting, hpressed⟩ := Heeds.poll h cost hgoesOn
  -- Keyboard and keypad follow the same edges, so one stays below the other if it was before.
  have hlevel (k : Nibble) : k ∈ (h.keyboard.poll (h.clock + cost) strokes).1.held ↔
      levelAfter k h.keyboard.since[k].isSome (h.keyboard.poll (h.clock + cost) strokes).2 := by
    rw [Keyboard.mem_held, hreports.level]
  refine ⟨?_, ?_, ?_, hsetting.trans hh.setting, fun k hk => ?_, fun hkeeps k hk => ?_⟩
  · rw [hkeyboard]
    exact (Keyboard.poll_layout strokes).trans hh.layout_eq
  · rw [hkeyboard, lastTime_append]
    exact hrecalls
  · rw [hclock, lastTime_append]
  · rw [hpressed] at hk
    rw [hkeyboard, hlevel]
    exact levelAfter_mono (fun hbefore => Keyboard.mem_held.1 (hh.held_of_pressed k hbefore)) hk
  · rw [hkeyboard, hlevel] at hk
    rw [hpressed]
    exact levelAfter_mono (fun hbefore => hh.pressed_of_held hkeeps k (Keyboard.mem_held.2 hbefore)) hk

theorem keypadAgrees (hh : h.Attends layout consumes batches) :
    h.KeypadAgrees layout consumes batches := by
  refine ⟨fun k => ?_, fun key hkey => hh.held_of_pressed _ hkey,
    fun hkeeps key hkey => hh.pressed_of_held hkeeps _ hkey⟩
  rw [hh.recalls.mem_held_iff, hh.layout_eq]

theorem resume (hh : h.Attends layout consumes batches) (rig : Rig) (phase : Phase) (cost : Nat)
    {strokes : List Keystroke} (hcalm : ∀ stroke ∈ strokes, ¬ Keyboard.asksToStop stroke) :
    (h.resume rig phase (.answered cost (.strokes strokes))).Holds
      (Attends layout consumes (batches ++ [⟨h.clock + cost, strokes⟩])) := by
  apply (Meanwhile.resume rig h phase _).mono
  intro next hm
  exact (hh.poll cost hcalm).settles (.meanwhile hm)

theorem start (hh : h.Attends layout consumes batches) (rig : Rig) (turn : Turn) :
    (turn.call.start rig (h.elapse turn.pause)).Holds (Attends layout consumes batches) := by
  have hpaused := hh.settles (.elapse h turn.pause)
  apply (Meanwhile.start rig _ turn.call).mono
  intro next hm
  exact hpaused.settles (.meanwhile hm)

end Attends

/-! ## Sessions -/

/-- The stages of a session of calls that is polled for keystrokes, each with the batches read so far,
as long as nobody asks to stop. -/
inductive Reaches (rig : Rig) (first : Host) : List Batch → Stage → Prop where
  | call (turn : Turn) : Reaches rig first [] (turn.call.start rig (first.elapse turn.pause))
  | poll {batches : List Batch} {phase : Phase} {h : Host} (cost : Nat) {strokes : List Keystroke}
      (hcalm : ∀ stroke ∈ strokes, ¬ Keyboard.asksToStop stroke)
      (hreaches : Reaches rig first batches (.running phase h)) :
      Reaches rig first (batches ++ [⟨h.clock + cost, strokes⟩])
        (h.resume rig phase (.answered cost (.strokes strokes)))
  | again {batches : List Batch} {ending : Ending} {h : Host} (turn : Turn)
      (hreaches : Reaches rig first batches (.ended ending h)) :
      Reaches rig first batches (turn.call.start rig (h.elapse turn.pause))

namespace Reaches

variable {rig : Rig} {first : Host} {batches : List Batch} {stage : Stage}

theorem feed_one (hreaches : first.Reaches rig batches stage) (time : Nat)
    (hruns : stage.runs fun h => h.clock == time) (cost : Nat) {strokes : List Keystroke}
    (hcalm : ∀ stroke ∈ strokes, ¬ Keyboard.asksToStop stroke) :
    first.Reaches rig (batches ++ [⟨time + cost, strokes⟩])
      (stage.feed rig [.answered cost (.strokes strokes)]).1 := by
  obtain ⟨phase, h, rfl, hclock⟩ := Stage.exists_of_runs hruns
  have hnext := hreaches.poll cost hcalm
  rw [eq_of_beq hclock] at hnext
  rw [Stage.feed]
  generalize h.resume rig phase _ = next at hnext ⊢
  cases next <;> exact hnext

theorem attends {layout : Layout} {consumes : Bool} (hreaches : first.Reaches rig batches stage)
    (hfirst : first.Attends layout consumes []) : stage.Holds (Attends layout consumes batches) := by
  induction hreaches with
  | call turn => exact hfirst.start rig turn
  | poll cost hcalm _ ih => exact Attends.resume ih rig _ cost hcalm
  | again turn _ ih => exact Attends.start ih rig turn

end Reaches

/-- A machine with no key pressed runs on a host with a new keyboard, in any session of calls. At every
stage, after every poll and whatever is done before the next, the keyboard holds the keys last pressed
less than the hold time before the last poll, and the keypad of the machine agrees with it. -/
theorem keypad_follows_keyboard {machine : Machine} (hfree : ∀ key, machine.holdsKey key = false)
    (layout : Layout) (timerRate : UInt32) (time : Nat) {rig : Rig} {batches : List Batch}
    {stage : Stage}
    (hreaches : (Host.new machine (.ofLayout layout) timerRate time).Reaches rig batches stage) :
    (stage.Holds fun h => ∀ next, h.Meanwhile rig next →
        next.KeypadAgrees layout machine.consumesKeys batches) ∧
      ∀ phase h cost strokes, stage = .running phase h →
        (∀ stroke ∈ strokes, ¬ Keyboard.asksToStop stroke) →
        let polled := (h.poll (.answered cost (.strokes strokes))).1
        (h.resume rig phase (.answered cost (.strokes strokes))).Holds (polled.Meanwhile rig) ∧
          ∀ next, polled.Meanwhile rig next →
            next.KeypadAgrees layout machine.consumesKeys
              (batches ++ [⟨h.clock + cost, strokes⟩]) := by
  have hstage := hreaches.attends (.new hfree layout timerRate time)
  refine ⟨?_, ?_⟩
  · apply hstage.mono
    intro h hh next hm
    exact (hh.settles (.meanwhile hm)).keypadAgrees
  · rintro phase h cost strokes rfl hcalm polled
    refine ⟨Meanwhile.resume rig h phase _, ?_⟩
    intro next hm
    exact ((Attends.poll hstage cost hcalm).settles (.meanwhile hm)).keypadAgrees

/-- A machine that goes round in a loop and does not consume keys. -/
def looping : Machine := { Machine.holding [0x12, 0x00] with consumesKeys := false }

def loopingHost : Host := new looping (.ofLayout .conventional) 60 0

def tap : Batch := ⟨0, [⟨.char 'q', false⟩]⟩

def pause : Batch := ⟨150000000, []⟩

/-- A run in which a key has just been tapped. -/
def tapped : Stage :=
  (((Call.run none).start .steady (loopingHost.elapse 0)).feed .steady [.answered 0 (.strokes tap.strokes)]).1

def letGo : Stage := (tapped.feed .steady [.answered 148571429 (.strokes pause.strokes)]).1

theorem tapped_followed :
    (∀ key, looping.holdsKey key = false) ∧
      loopingHost.Reaches .steady [tap] tapped ∧ loopingHost.Reaches .steady [tap, pause] letGo ∧
      (∃ phase h, tapped = .running phase h ∧ h.machine.holdsKey 4 ∧
        h.KeypadAgrees .conventional false [tap]) ∧
      ∃ phase h, letGo = .running phase h ∧ !h.machine.holdsKey 4 ∧
        h.KeypadAgrees .conventional false [tap, pause] := by
  have hfree : ∀ key, looping.holdsKey key = false := by
    intro key
    exact Vector.getElem_replicate (Keys.named key).isLt
  have hagree {batches : List Batch} {stage : Stage} (p : Host → Bool)
      (hreaches : loopingHost.Reaches .steady batches stage) (hruns : stage.runs p) :
      ∃ phase h, stage = .running phase h ∧ p h ∧ h.KeypadAgrees .conventional false batches := by
    obtain ⟨phase, h, rfl, hp⟩ := Stage.exists_of_runs hruns
    obtain ⟨hstage, -⟩ := keypad_follows_keyboard hfree .conventional 60 0 hreaches
    exact ⟨phase, h, rfl, hp, hstage h (.refl h)⟩
  have hcall : loopingHost.Reaches .steady [] ((Call.run none).start .steady (loopingHost.elapse 0)) :=
    .call ⟨0, .run none⟩
  have htapped : loopingHost.Reaches .steady [tap] tapped :=
    hcall.feed_one 0 (by decide +kernel) 0 (by decide)
  have hletGo : loopingHost.Reaches .steady [tap, pause] letGo :=
    htapped.feed_one 1428571 (by decide +kernel) 148571429 (by decide)
  refine ⟨hfree, htapped, hletGo, hagree (fun h => h.machine.holdsKey 4) htapped ?_,
    hagree (fun h => !h.machine.holdsKey 4) hletGo ?_⟩
  · decide +kernel
  · decide +kernel

end Host

end Chip8Console
