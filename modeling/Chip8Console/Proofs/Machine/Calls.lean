import Chip8Console.Proofs.CallStack
import Chip8Console.Proofs.Machine.Execution
import Chip8Console.Proofs.Machine.Independence

/-!
# Calls and returns

To a program the call stack is a list of at most fifteen return addresses: a call adds the address
behind it at the end, a return takes the last one off and goes there, and nothing else touches the list,
whatever the program does to itself and whatever a host does in between short of starting anew.

So what is below a call stays below it until the call is over: as long as the list is longer than it was
at the call, it begins with what it was then and the call's return address. The first step that makes it
as short again must be a return to that address.

The slots that are not on the list, slot zero and those above the depth, are never looked at. Two machines
that differ in nothing else do the same, step by step.
-/

namespace Chip8Console

namespace Execution

/-- What an execution does to the return addresses, the innermost last. -/
def stacked (levels : List UInt16) (e : Execution) : List UInt16 :=
  match e.instruction with
  | .call _ => levels ++ [e.pc + 2]
  | .ret => levels.dropLast
  | _ => levels

def calls (e : Execution) : Bool :=
  match e.instruction with
  | .call _ => true
  | _ => false

def returns (e : Execution) : Bool := e.instruction == .ret

end Execution

namespace Machine

def withStack (m : Machine) (stack : CallStack) : Machine := { m with stack }

section WithStack

variable (m : Machine) (s : CallStack)

@[simp] theorem withStack_pc : (m.withStack s).pc = m.pc := rfl

theorem pressKey_withStack (key : UInt8) :
    (m.withStack s).pressKey key = (m.pressKey key).withStack s := by
  simp only [pressKey, withStack]
  split <;> rfl

end WithStack

/-- An instruction that is neither a call nor a return has nothing to do with the stack. -/
theorem perform_withStack (m : Machine) (s : CallStack) (pc : UInt16) {instruction : Instruction}
    (h : instruction.stackless) :
    (m.withStack s).perform pc instruction =
      ((m.perform pc instruction).1.withStack s, (m.perform pc instruction).2) :=
  perform_replace (.stack s) pc (by rw [Instruction.concerns, h]; rfl)

theorem perform_stack (m : Machine) (pc : UInt16) {instruction : Instruction}
    (h : instruction.stackless) : (m.perform pc instruction).1.stack = m.stack :=
  (Footprint.perform m pc instruction).stack h

/-! ### The list of return addresses -/

/-- A call that is carried out adds the address behind it. -/
theorem toList_perform_call {m : Machine} {pc : UInt16} {target : Address}
    (h : ∀ f, ¬ m.Blocks pc (.call target) f) :
    (m.perform pc (.call target)).1.stack.toList = m.stack.toList ++ [m.pc] := by
  cases hpush : m.stack.push? m.pc with
  | none => exact (h _ (.call target ((CallStack.push?_eq_none_iff _ _).1 hpush))).elim
  | some stack =>
      simp only [perform, push, hpush]
      exact CallStack.toList_push hpush

/-- A return that is carried out takes off the address it goes to. -/
theorem toList_perform_ret {m : Machine} {pc : UInt16} (h : ∀ f, ¬ m.Blocks pc .ret f) :
    m.stack.toList = (m.perform pc .ret).1.stack.toList ++ [(m.perform pc .ret).1.pc] := by
  cases hpop : m.stack.pop? with
  | none => exact (h _ (.ret ((CallStack.pop?_eq_none_iff _).1 hpop))).elim
  | some popped =>
      simp only [perform, pop, hpop]
      exact CallStack.toList_pop hpop

/-- All that an execution can do to the return addresses. -/
theorem toList_step_cases {m : Machine} {e : Execution} (h : m.execution? = some e) :
    (e.calls ∧ m.step.1.stack.toList = m.stack.toList ++ [m.pc + 2]) ∨
      (e.instruction = .ret ∧ m.stack.toList = m.step.1.stack.toList ++ [m.step.1.pc]) ∨
        e.instruction.stackless ∧ m.step.1.stack.toList = m.stack.toList := by
  obtain ⟨hnone, -⟩ | ⟨w, -, hsome, hclear, hstep⟩ := m.execution?_cases
  · rw [hnone] at h
    cases h
  · rw [hsome] at h
    cases h
    have hclear' : ∀ f, ¬ { m with pc := m.pc + 2 }.Blocks m.pc (.ofWord w) f :=
      fun f hblocks => hclear f (hblocks.congr rfl rfl)
    rw [hstep]
    generalize Instruction.ofWord w = instruction at hclear'
    by_cases hstackless : instruction.stackless
    · exact .inr (.inr ⟨hstackless, by rw [perform_stack _ _ hstackless]⟩)
    · cases instruction with
      | call target => exact .inl ⟨rfl, toList_perform_call hclear'⟩
      | ret => exact .inr (.inl ⟨rfl, toList_perform_ret hclear'⟩)
      | _ => exact absurd rfl hstackless

theorem toList_step (m : Machine) :
    m.step.1.stack.toList = m.execution?.toList.foldl Execution.stacked m.stack.toList ∧
      m.step.1.stack.depth.val + m.execution?.toList.countP Execution.returns =
        m.stack.depth.val + m.execution?.toList.countP Execution.calls := by
  obtain ⟨hnone, hstep⟩ | ⟨w, -, hsome, -⟩ := m.execution?_cases
  · rw [hnone, hstep]
    exact ⟨rfl, rfl⟩
  · have hlevels := toList_step_cases hsome
    rw [hsome]
    generalize Instruction.ofWord w = instruction at hlevels
    rw [← CallStack.length_toList, ← CallStack.length_toList]
    obtain ⟨hcalls, hlevels⟩ | ⟨hret, hlevels⟩ | ⟨hstackless, hlevels⟩ := hlevels
    · cases instruction with
      | call target => exact ⟨hlevels, by rw [hlevels, List.length_append]; rfl⟩
      | _ => cases hcalls
    · cases hret
      refine ⟨?_, by rw [hlevels, List.length_append]; rfl⟩
      rw [hlevels]
      exact List.dropLast_concat.symm
    · rw [hlevels]
      cases instruction with
      | call target => cases hstackless
      | ret => cases hstackless
      | _ => exact ⟨rfl, rfl⟩

theorem act_stack {m : Machine} {action : Action} (hcarries : action.carriesOn)
    (hstep : action ≠ .step) : (m.act action).stack = m.stack := by
  cases action with
  | step => exact absurd rfl hstep
  | press key =>
      simp only [act, pressKey]
      split <;> rfl
  | reset => cases hcarries
  | load source => cases hcarries
  | _ => rfl

/-- The return addresses after a run are what its executions make of those before it, and there are
as many more as it has had calls, less its returns. -/
theorem toList_after (m : Machine) {actions : List Action}
    (hcarries : ∀ action ∈ actions, action.carriesOn) :
    (m.after actions).stack.toList =
        (m.executions actions).foldl Execution.stacked m.stack.toList ∧
      (m.after actions).stack.depth.val + (m.executions actions).countP Execution.returns =
        m.stack.depth.val + (m.executions actions).countP Execution.calls := by
  induction actions generalizing m with
  | nil => exact ⟨rfl, rfl⟩
  | cons action actions ih =>
      obtain ⟨hlevels, hdepth⟩ := ih (m.act action) fun next hnext =>
        hcarries next (List.mem_cons_of_mem _ hnext)
      rw [after_cons]
      by_cases hstep : action = .step
      · subst hstep
        obtain ⟨hstepped, hcount⟩ := m.toList_step
        rw [executions_step, List.foldl_append, ← hstepped, List.countP_append, List.countP_append]
        refine ⟨hlevels, ?_⟩
        simp only [act] at hdepth ⊢
        omega
      · have hstack := act_stack (m := m) (hcarries action List.mem_cons_self) hstep
        rw [executions_cons hstep, ← hstack]
        exact ⟨hlevels, hdepth⟩

/-- A call goes through exactly when fewer than fifteen levels are in use. -/
theorem call_advanced_iff {m : Machine} (hnone : m.waiting = none) {w : Word}
    (hfetch : m.fetch = .ok w) {target : Address} (hw : Instruction.ofWord w = .call target) :
    m.step.2 = .advanced ↔ m.stack.depth.val < 15 := by
  have hlt := m.stack.depth.isLt
  constructor
  · intro hadvanced
    apply Decidable.byContradiction
    intro hfull
    have hfaults : m.Faults (.stackOverflow m.pc) := by
      refine .executing hnone hfetch ?_
      rw [hw]
      exact .call target (by omega)
    rw [step_of_faults hfaults] at hadvanced
    cases hadvanced
  · intro hroom
    have hclear : ∀ f, ¬ m.Blocks m.pc (.ofWord w) f := by
      rw [hw]
      rintro f ⟨⟩
      omega
    cases hpush : m.stack.push? (m.pc + 2) with
    | none =>
        rw [CallStack.push?_eq_none_iff] at hpush
        omega
    | some stack =>
        rw [step_of_fetch hnone hfetch, exec_of_not_blocks hclear, hw]
        simp [perform, push, hpush]

/-! ### What is below a call -/

/-- Return addresses stay at the beginning of the list until the last of them is returned to. -/
theorem prefix_step {m : Machine} {levels : List UInt16} {address : UInt16}
    (h : levels ++ [address] <+: m.stack.toList) :
    levels ++ [address] <+: m.step.1.stack.toList ∨
      m.step.1.stack.toList = levels ∧ m.execution? = some ⟨m.pc, .ret⟩ ∧
        m.step.1.pc = address := by
  obtain ⟨-, hstep⟩ | ⟨w, -, hsome, -⟩ := m.execution?_cases
  · rw [hstep]
    exact .inl h
  · have hlevels := toList_step_cases hsome
    obtain ⟨-, hlevels⟩ | ⟨hret, hlevels⟩ | ⟨-, hlevels⟩ := hlevels
    · rw [hlevels]
      exact .inl (h.trans (List.prefix_append _ _))
    · rw [hlevels, List.prefix_concat_iff] at h
      rcases h with heq | hprefix
      · obtain ⟨hlevels', haddress⟩ := List.append_inj' heq rfl
        refine .inr ⟨hlevels'.symm, ?_, (List.singleton_inj.1 haddress).symm⟩
        rw [hsome, ← hret]
      · exact .inl hprefix
    · rw [hlevels]
      exact .inl h

theorem prefix_after {levels : List UInt16} {address : UInt16} {actions : List Action}
    (hcarries : ∀ action ∈ actions, action.carriesOn) {m : Machine}
    (habove : ∀ n ≤ actions.length, (m.after (actions.take n)).stack.depth.val ≠ levels.length)
    (h : levels ++ [address] <+: m.stack.toList) :
    levels ++ [address] <+: (m.after actions).stack.toList := by
  induction actions generalizing m with
  | nil => exact h
  | cons action actions ih =>
      rw [after_cons]
      apply ih
      · intro next hnext
        exact hcarries next (List.mem_cons_of_mem _ hnext)
      · intro n hn
        exact habove (n + 1) (Nat.succ_le_succ hn)
      · by_cases hstep : action = .step
        · subst hstep
          have hdepth := habove 1 (Nat.succ_le_succ (Nat.zero_le _))
          rw [← CallStack.length_toList] at hdepth
          rcases prefix_step h with hprefix | ⟨hback, -⟩
          · exact hprefix
          · exact absurd (congrArg List.length hback) hdepth
        · rw [act_stack (hcarries action List.mem_cons_self) hstep]
          exact h

/-- The step that first brings the depth back to what it was before a call returns from that call. -/
theorem returns_to_call {m : Machine} {target : Address}
    (hcall : m.execution? = some ⟨m.pc, .call target⟩) {actions : List Action}
    (hcarries : ∀ action ∈ actions, action.carriesOn)
    (habove : ∀ n ≤ actions.length,
      (m.step.1.after (actions.take n)).stack.depth ≠ m.stack.depth)
    (hback : (m.step.1.after actions).step.1.stack.depth = m.stack.depth) :
    (m.step.1.after actions).execution? = some ⟨(m.step.1.after actions).pc, .ret⟩ ∧
      (m.step.1.after actions).step.1.pc = m.pc + 2 := by
  have hcalled : m.step.1.stack.toList = m.stack.toList ++ [m.pc + 2] := by
    rw [m.toList_step.1, hcall]
    rfl
  have hprefix : m.stack.toList ++ [m.pc + 2] <+: (m.step.1.after actions).stack.toList := by
    apply prefix_after hcarries
    · intro n hn heq
      rw [CallStack.length_toList] at heq
      exact habove n hn (Fin.ext heq)
    · exact hcalled ▸ List.prefix_refl _
  rcases prefix_step hprefix with hstill | ⟨-, hreturn⟩
  · have hle := hstill.length_le
    rw [List.length_append, CallStack.length_toList, CallStack.length_toList, hback] at hle
    exact absurd hle (Nat.not_succ_le_self _)
  · exact hreturn

/-! ### Slots that are not on the list -/

section SameLevels

variable {m : Machine} {s : CallStack}

theorem perform_sameLevels (h : m.stack.SameLevels s) (pc : UInt16) (instruction : Instruction) :
    ∃ s', (m.withStack s).perform pc instruction =
        ((m.perform pc instruction).1.withStack s', (m.perform pc instruction).2) ∧
      (m.perform pc instruction).1.stack.SameLevels s' := by
  by_cases hstackless : instruction.stackless
  · refine ⟨s, perform_withStack m s pc hstackless, ?_⟩
    rw [perform_stack _ _ hstackless]
    exact h
  · cases instruction with
    | call target =>
        obtain ⟨hnone, hnone'⟩ | ⟨t, t', hsome, hsome', ht⟩ := h.push m.pc
        · exact ⟨s, by simp [perform, push, withStack, hnone, hnone'],
            by simpa [perform, push, hnone] using h⟩
        · exact ⟨t', by simp [perform, push, withStack, hsome, hsome'],
            by simpa [perform, push, hsome] using ht⟩
    | ret =>
        obtain ⟨hnone, hnone'⟩ | ⟨address, t, t', hsome, hsome', ht⟩ := h.pop
        · exact ⟨s, by simp [perform, pop, withStack, hnone, hnone'],
            by simpa [perform, pop, hnone] using h⟩
        · exact ⟨t', by simp [perform, pop, withStack, hsome, hsome'],
            by simpa [perform, pop, hsome] using ht⟩
    | _ => exact absurd rfl hstackless

theorem exec_sameLevels (h : m.stack.SameLevels s) (instruction : Instruction) :
    ∃ s', (m.withStack s).exec instruction =
        ((m.exec instruction).1.withStack s', (m.exec instruction).2) ∧
      (m.exec instruction).1.stack.SameLevels s' := by
  have hpast : { m with pc := m.pc + 2 }.stack.SameLevels s := h
  obtain ⟨s', hperform, hs'⟩ := perform_sameLevels hpast m.pc instruction
  refine ⟨s', ?_⟩
  have hother : { m.withStack s with pc := (m.withStack s).pc + 2 } =
      { m with pc := m.pc + 2 }.withStack s := rfl
  unfold exec
  rw [hother, withStack_pc, hperform]
  generalize { m with pc := m.pc + 2 }.perform m.pc instruction = done at hs'
  obtain ⟨next, outcome⟩ := done
  cases outcome with
  | faulted f => exact ⟨rfl, hs'⟩
  | advanced => exact ⟨rfl, hs'⟩
  | parked => exact ⟨rfl, hs'⟩

theorem step_sameLevels (h : m.stack.SameLevels s) :
    ∃ s', (m.withStack s).step = (m.step.1.withStack s', m.step.2) ∧
      m.step.1.stack.SameLevels s' := by
  have hfetch_eq : (m.withStack s).fetch = m.fetch := rfl
  cases hwaiting : m.waiting with
  | some x =>
      rw [step_of_waiting hwaiting, step_of_waiting (m := m.withStack s) hwaiting]
      exact ⟨s, rfl, h⟩
  | none =>
      cases hfetch : m.fetch with
      | error f =>
          rw [step_of_fetch_error hwaiting hfetch,
            step_of_fetch_error (m := m.withStack s) hwaiting hfetch]
          exact ⟨s, rfl, h⟩
      | ok w =>
          rw [step_of_fetch hwaiting hfetch, step_of_fetch (m := m.withStack s) hwaiting hfetch]
          exact exec_sameLevels h _

theorem act_sameLevels (h : m.stack.SameLevels s) {action : Action} (hcarries : action.carriesOn) :
    ∃ s', (m.withStack s).act action = (m.act action).withStack s' ∧
      (m.act action).stack.SameLevels s' := by
  by_cases hstep : action = .step
  · subst hstep
    obtain ⟨s', hstepped, hs'⟩ := step_sameLevels h
    exact ⟨s', congrArg Prod.fst hstepped, hs'⟩
  · have hstack := act_stack (m := m) hcarries hstep
    refine ⟨s, ?_, hstack ▸ h⟩
    cases action with
    | press key => exact pressKey_withStack m s key
    | step => exact absurd rfl hstep
    | reset => cases hcarries
    | load source => cases hcarries
    | _ => rfl

/-- Machines that differ in nothing but slots that are not on the list go on to do so, and their steps
end in the same way. -/
theorem after_sameLevels {actions : List Action} (hcarries : ∀ action ∈ actions, action.carriesOn)
    (h : m.stack.SameLevels s) :
    (m.withStack s).outcomes actions = m.outcomes actions ∧
      ∃ s', (m.withStack s).after actions = (m.after actions).withStack s' ∧
        (m.after actions).stack.SameLevels s' := by
  induction actions generalizing m s with
  | nil => exact ⟨rfl, s, rfl, h⟩
  | cons action actions ih =>
      have hcarries' : ∀ next ∈ actions, next.carriesOn := fun next hnext =>
        hcarries next (List.mem_cons_of_mem _ hnext)
      obtain ⟨t, hact, ht⟩ := act_sameLevels h (hcarries action List.mem_cons_self)
      obtain ⟨houtcomes, hafter⟩ := ih hcarries' ht
      rw [after_cons, after_cons, hact]
      refine ⟨?_, hafter⟩
      rw [← hact] at houtcomes
      cases action with
      | step =>
          obtain ⟨t', hstepped, -⟩ := step_sameLevels h
          have houtcome : (m.withStack s).step.2 = m.step.2 := by rw [hstepped]
          exact List.cons_eq_cons.2 ⟨houtcome, houtcomes⟩
      | _ => exact houtcomes

end SameLevels

/-- A program sees its call stack as a list of at most fifteen return addresses: the list and its
length follow the calls and returns that are carried out, a call goes through when there is room, it is
returned to by the first step that brings the depth back, and no other slot has any effect. -/
theorem calls_nest (m : Machine) :
    (∀ actions : List Action, (∀ action ∈ actions, action.carriesOn) →
      (m.after actions).stack.toList =
          (m.executions actions).foldl Execution.stacked m.stack.toList ∧
        (m.after actions).stack.depth.val + (m.executions actions).countP Execution.returns =
          m.stack.depth.val + (m.executions actions).countP Execution.calls) ∧
    (∀ w target, m.waiting = none → m.fetch = .ok w → Instruction.ofWord w = .call target →
      (m.step.2 = .advanced ↔ m.stack.depth.val < 15)) ∧
    (∀ target, m.execution? = some ⟨m.pc, .call target⟩ →
      ∀ actions : List Action, (∀ action ∈ actions, action.carriesOn) →
        (∀ n ≤ actions.length,
          (m.step.1.after (actions.take n)).stack.depth ≠ m.stack.depth) →
        (m.step.1.after actions).step.1.stack.depth = m.stack.depth →
          (m.step.1.after actions).execution? = some ⟨(m.step.1.after actions).pc, .ret⟩ ∧
            (m.step.1.after actions).step.1.pc.toNat = m.pc.toNat + 2) ∧
    ∀ s, m.stack.SameLevels s →
      ∀ actions : List Action, (∀ action ∈ actions, action.carriesOn) →
        (m.withStack s).outcomes actions = m.outcomes actions ∧
          ∃ s', (m.withStack s).after actions = (m.after actions).withStack s' ∧
            (m.after actions).stack.SameLevels s' := by
  refine ⟨fun actions => m.toList_after, fun w target hnone hfetch => call_advanced_iff hnone hfetch, ?_, ?_⟩
  · intro target hcall actions hcarries habove hback
    obtain ⟨hreturn, hpc⟩ := returns_to_call hcall hcarries habove hback
    refine ⟨hreturn, ?_⟩
    obtain ⟨hnone, -⟩ | ⟨w, hfetch, -⟩ := m.execution?_cases
    · rw [hnone] at hcall
      cases hcall
    · rw [hpc]
      exact (toNat_pc_add_two hfetch).1
  · intro s hs actions hcarries
    exact after_sameLevels hcarries hs

/-- A machine whose program calls, calls again, and returns twice. -/
def nesting : Machine :=
  holding [0x22, 0x06, 0x12, 0x02, 0x00, 0x00, 0x22, 0x0A, 0x00, 0xEE, 0x00, 0xEE]

def nestedActions : List Action := [.step, .press 5, .step, .tick]

theorem nesting_returns :
    (nesting.after (.step :: nestedActions)).stack.toList =
        (nesting.executions (.step :: nestedActions)).foldl Execution.stacked [] ∧
    nesting.step.2 = .advanced ∧
    ((nesting.step.1.after nestedActions).execution? =
        some ⟨(nesting.step.1.after nestedActions).pc, .ret⟩ ∧
      (nesting.step.1.after nestedActions).step.1.pc.toNat = nesting.pc.toNat + 2) ∧
    (nesting.withStack ⟨Vector.replicate 16 0xFFF, 0⟩).outcomes (.step :: nestedActions) =
      nesting.outcomes (.step :: nestedActions) := by
  have hcarries : ∀ action ∈ Action.step :: nestedActions, action.carriesOn := by
    simp [nestedActions, Action.carriesOn]
  have hsame : nesting.stack.SameLevels ⟨Vector.replicate 16 0xFFF, 0⟩ := by
    refine ⟨rfl, fun k hlow hhigh => ?_⟩
    exact absurd (Nat.le_trans hlow hhigh) (by decide)
  have hfetch : nesting.fetch = .ok 0x2206 := eq_ok_of_toOption (by decide +kernel)
  obtain ⟨hlist, hroom, hreturns, hstale⟩ := calls_nest nesting
  refine ⟨(hlist _ hcarries).1, (hroom 0x2206 0x206 rfl hfetch (by decide)).2 (by decide),
    hreturns 0x206 ?_ nestedActions ?_ ?_ ?_, (hstale _ hsame _ hcarries).1⟩
  · decide +kernel
  · intro action hmem
    exact hcarries action (List.mem_cons_of_mem _ hmem)
  · decide +kernel
  · decide +kernel

end Machine

end Chip8Console
