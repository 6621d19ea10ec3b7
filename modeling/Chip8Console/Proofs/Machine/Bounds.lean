import Chip8Console.Proofs.Machine.Fault

/-!
# The bounds of a reachable machine

The types of a machine already say that a register number is below sixteen, a pixel lit or dark, the
stack no deeper than fifteen, and memory 4096 bytes long. `Machine.Bounded` says the rest of what holds
of every machine that starts out fresh: where the counter and the return addresses can point, that
slot zero of the stack is never written, and where programs go.

The bound on the counter is the largest address plus the largest byte, which only a jump with an
offset can reach. An instruction that is executed was fetched from inside memory, so the counter
behind it, and with it every return address, lies in 2..0x1000.
-/

namespace Chip8Console

namespace CallStack

/-- A call fills the slot above the top one. -/
theorem push?_eq_some {s t : CallStack} {address : UInt16} (h : s.push? address = some t) :
    t.depth.val = s.depth.val + 1 ∧
      ∀ k : Nibble, t.slots[k] = if k.val = s.depth.val + 1 then address else s.slots[k] := by
  unfold push? at h
  split at h
  · next hdepth =>
    cases h
    refine ⟨rfl, fun k => ?_⟩
    show (s.slots.set (s.depth.val + 1) address (Nat.succ_lt_succ hdepth))[k.val] = _
    rw [Vector.getElem_set]
    simp only [eq_comm]
    rfl
  · cases h

theorem pop?_eq_some {s t : CallStack} {address : UInt16} (h : s.pop? = some (address, t)) :
    s.depth.val ≠ 0 ∧ address = s.slots[s.depth] ∧
      t.slots = s.slots ∧ t.depth.val = s.depth.val - 1 := by
  unfold pop? at h
  split at h
  · cases h
  · next hdepth =>
    cases h
    exact ⟨hdepth, rfl, rfl, rfl⟩

/-- Slot zero is unused, and the return addresses on the stack point behind instructions. -/
structure Sane (s : CallStack) : Prop where
  slot_zero : s.slots[(0 : Nibble)] = 0
  returns : ∀ k : Nibble, 1 ≤ k.val → k.val ≤ s.depth.val →
    2 ≤ s.slots[k].toNat ∧ s.slots[k].toNat ≤ 0x1000

theorem sane_empty : empty.Sane where
  slot_zero := rfl
  returns k hlow hhigh := by
    simp only [empty, Fin.val_zero] at hhigh
    omega

theorem Sane.push {s t : CallStack} {address : UInt16} (h : s.Sane)
    (hlow : 2 ≤ address.toNat) (hhigh : address.toNat ≤ 0x1000) (hpush : s.push? address = some t) :
    t.Sane := by
  obtain ⟨hdepth, hslots⟩ := push?_eq_some hpush
  refine ⟨?_, fun k hone hle => ?_⟩
  · rw [hslots, if_neg (by simp only [Fin.val_zero]; omega)]
    exact h.slot_zero
  · rw [hslots]
    split
    · exact ⟨hlow, hhigh⟩
    · exact h.returns k hone (by omega)

theorem Sane.pop {s t : CallStack} {address : UInt16} (h : s.Sane)
    (hpop : s.pop? = some (address, t)) : t.Sane ∧ address.toNat ≤ 0x1000 := by
  obtain ⟨hdepth, rfl, hslots, hshallower⟩ := pop?_eq_some hpop
  refine ⟨⟨?_, fun k hone hle => ?_⟩, (h.returns s.depth (by omega) (Nat.le_refl _)).2⟩
  · rw [hslots]
    exact h.slot_zero
  · rw [hslots]
    exact h.returns k hone (by omega)

end CallStack

namespace Ram

theorem write_loadAt {ram next : Ram} {addr : UInt16} {data : List UInt8}
    (h : ram.write addr data = .ok next) : next.loadAt = ram.loadAt := by
  unfold write at h
  split at h
  · cases h
    rfl
  · cases h

theorem install_loadAt (ram : Ram) (image : List UInt8) :
    (ram.install image).1.loadAt = ram.loadAt := by
  unfold install
  rw [apply_ite Prod.fst, apply_ite Ram.loadAt, ite_self]

theorem load_loadAt (ram : Ram) (source : ByteSource) :
    (ram.load source).1.loadAt = ram.loadAt := by
  unfold load
  split
  · rfl
  · exact install_loadAt ram _

end Ram

theorem Image.length_le_of_ofSource {source : ByteSource} {image : List UInt8}
    (h : ofSource source = .ok image) : image.length ≤ maxBytes := by
  unfold ofSource at h
  split at h
  · cases h
  · next data rest _ =>
    split at h
    · split at h <;> cases h
    · cases h
      omega

namespace Machine

theorem skipIf_eq (m : Machine) (c : Bool) :
    m.skipIf c = { m with pc := if c then m.pc + 2 else m.pc } := by
  unfold skipIf
  split <;> rfl

theorem consume_eq (m : Machine) (key : UInt8) :
    m.consume key =
      { m with keys := if m.holdsKey key && m.consumesKeys then m.keys.release (Keys.named key)
          else m.keys } := by
  unfold consume releaseKey
  split <;> rfl

/-- What holds of every machine that starts out fresh. -/
structure Bounded (m : Machine) : Prop where
  stack_sane : m.stack.Sane
  pc_le : m.pc.toNat ≤ 0x10FE
  loadAt_eq : m.ram.loadAt = 0x200

theorem bounded_fresh (consumesKeys : Bool) (rng : Keystream) : (fresh consumesKeys rng).Bounded where
  stack_sane := CallStack.sane_empty
  pc_le := show (0x200 : UInt16).toNat ≤ 0x10FE by decide
  loadAt_eq := rfl

theorem Bounded.reset {m : Machine} (h : m.Bounded) : m.reset.Bounded where
  stack_sane := CallStack.sane_empty
  pc_le := show (0x200 : UInt16).toNat ≤ 0x10FE by decide
  loadAt_eq := h.loadAt_eq

theorem Bounded.load {m : Machine} (h : m.Bounded) (source : ByteSource) :
    (m.load source).1.Bounded := by
  have hloadAt : (m.ram.load source).1.loadAt = 0x200 := by
    rw [Ram.load_loadAt]
    exact h.loadAt_eq
  unfold Machine.load
  split
  · next hload =>
    rw [hload] at hloadAt
    exact Bounded.reset ⟨h.stack_sane, h.pc_le, hloadAt⟩
  · next hload =>
    rw [hload] at hloadAt
    exact ⟨h.stack_sane, h.pc_le, hloadAt⟩

theorem Bounded.pressKey {m : Machine} (h : m.Bounded) (key : UInt8) : (m.pressKey key).Bounded := by
  unfold Machine.pressKey
  dsimp only
  split <;> exact ⟨h.stack_sane, h.pc_le, h.loadAt_eq⟩

/-- The counter behind an instruction that was fetched. -/
theorem toNat_pc_add_two {m : Machine} {w : Word} (h : m.fetch = .ok w) :
    (m.pc + 2).toNat = m.pc.toNat + 2 ∧ m.pc.toNat + 2 ≤ 4096 := by
  have hle : m.pc.toNat + 2 ≤ 4096 := by
    apply Decidable.byContradiction
    intro hpast
    rw [fetch, Ram.word_eq_error_iff.2 ⟨by omega, rfl⟩] at h
    cases h
  refine ⟨?_, hle⟩
  simp only [UInt16.toNat_add, UInt16.reduceToNat]
  omega

theorem Bounded.skipIf {m : Machine} (h : m.Bounded) (hpc : m.pc.toNat ≤ 0x1000) (c : Bool) :
    (m.skipIf c).Bounded := by
  rw [skipIf_eq]
  refine ⟨h.stack_sane, ?_, h.loadAt_eq⟩
  have hskip : (m.pc + 2).toNat ≤ 0x10FE := by
    simp only [UInt16.toNat_add, UInt16.reduceToNat]
    omega
  cases c
  · exact h.pc_le
  · exact hskip

theorem toNat_ofNat_address (a : Address) : (UInt16.ofNat a.val).toNat = a.val := by
  have := a.isLt
  simp only [UInt16.toNat_ofNat']
  omega

/-- The sum of a jump with an offset never wraps. -/
theorem toNat_jumpOffset (a : Address) (b : UInt8) :
    (UInt16.ofNat a.val + b.toUInt16).toNat = a.val + b.toNat := by
  have := a.isLt
  have := b.toNat_lt
  simp only [UInt16.toNat_add, UInt16.toNat_ofNat', UInt8.toNat_toUInt16]
  omega

/-- Carrying out an instruction keeps the bounds, if the counter is where fetching leaves it. -/
theorem Bounded.perform {m : Machine} (h : m.Bounded) (hlow : 2 ≤ m.pc.toNat)
    (hhigh : m.pc.toNat ≤ 0x1000) (pc : UInt16) (instruction : Instruction) :
    (m.perform pc instruction).1.Bounded := by
  cases instruction with
  | ret =>
      simp only [Machine.perform, Machine.pop]
      cases hpop : m.stack.pop? with
      | none => exact h
      | some popped =>
          obtain ⟨hsane, hle⟩ := h.stack_sane.pop hpop
          exact ⟨hsane, Nat.le_trans hle (by decide), h.loadAt_eq⟩
  | call a =>
      simp only [Machine.perform, Machine.push]
      cases hpush : m.stack.push? m.pc with
      | none => exact h
      | some stack =>
          refine ⟨h.stack_sane.push hlow hhigh hpush, ?_, h.loadAt_eq⟩
          rw [toNat_ofNat_address]
          omega
  | jump a =>
      refine ⟨h.stack_sane, ?_, h.loadAt_eq⟩
      simp only [Machine.perform, toNat_ofNat_address]
      omega
  | jumpOffset a =>
      refine ⟨h.stack_sane, ?_, h.loadAt_eq⟩
      have := a.isLt
      have := m.v[(0 : Nibble)].toNat_lt
      simp only [Machine.perform, toNat_jumpOffset]
      omega
  | skipEqByte x k => exact h.skipIf hhigh _
  | skipNeByte x k => exact h.skipIf hhigh _
  | skipEq x y => exact h.skipIf hhigh _
  | skipNe x y => exact h.skipIf hhigh _
  | skipPressed x =>
      have hskip := h.skipIf hhigh (m.holdsKey m.v[x])
      simp only [Machine.perform, consume_eq]
      exact ⟨hskip.stack_sane, hskip.pc_le, hskip.loadAt_eq⟩
  | skipReleased x =>
      have hskip := h.skipIf hhigh (!m.holdsKey m.v[x])
      simp only [Machine.perform, consume_eq]
      exact ⟨hskip.stack_sane, hskip.pc_le, hskip.loadAt_eq⟩
  | draw x y n =>
      simp only [Machine.perform]
      split
      · exact h
      · exact ⟨h.stack_sane, h.pc_le, h.loadAt_eq⟩
  | decimal x =>
      simp only [Machine.perform]
      split
      · exact h
      · next hwrite => exact ⟨h.stack_sane, h.pc_le, (Ram.write_loadAt hwrite).trans h.loadAt_eq⟩
  | store x =>
      simp only [Machine.perform]
      split
      · exact h
      · next hwrite => exact ⟨h.stack_sane, h.pc_le, (Ram.write_loadAt hwrite).trans h.loadAt_eq⟩
  | load x =>
      simp only [Machine.perform]
      split
      · exact h
      · exact ⟨h.stack_sane, h.pc_le, h.loadAt_eq⟩
  | _ => exact ⟨h.stack_sane, h.pc_le, h.loadAt_eq⟩

theorem Bounded.step {m : Machine} (h : m.Bounded) : m.step.1.Bounded := by
  obtain ⟨_, hstep⟩ | ⟨f, _, hstep⟩ | ⟨w, _, hfetch, _, hstep⟩ := m.step_cases
  · rw [hstep]
    exact h
  · rw [hstep]
    exact h
  · obtain ⟨hpc, hle⟩ := toNat_pc_add_two hfetch
    have hpast : { m with pc := m.pc + 2 }.Bounded := by
      refine ⟨h.stack_sane, ?_, h.loadAt_eq⟩
      show (m.pc + 2).toNat ≤ 0x10FE
      omega
    rw [hstep]
    apply hpast.perform
    · show 2 ≤ (m.pc + 2).toNat
      omega
    · show (m.pc + 2).toNat ≤ 0x1000
      omega

theorem Bounded.act {m : Machine} (h : m.Bounded) (action : Action) : (m.act action).Bounded := by
  cases action with
  | step => exact h.step
  | press key => exact h.pressKey key
  | release key => exact ⟨h.stack_sane, h.pc_le, h.loadAt_eq⟩
  | tick => exact ⟨h.stack_sane, h.pc_le, h.loadAt_eq⟩
  | note => exact ⟨h.stack_sane, h.pc_le, h.loadAt_eq⟩
  | abandon => exact ⟨h.stack_sane, h.pc_le, h.loadAt_eq⟩
  | reset => exact h.reset
  | load source => exact h.load source

theorem Bounded.after {m : Machine} (h : m.Bounded) (actions : List Action) :
    (m.after actions).Bounded :=
  after_induction (fun _ action _ hm => hm.act action) h

end Machine

end Chip8Console
