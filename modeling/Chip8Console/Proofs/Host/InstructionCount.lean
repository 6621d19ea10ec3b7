import Chip8Console.Proofs.Host.Resting
import Chip8Console.Proofs.Machine.Action

/-!
# How many instructions a run carries out

Every cycle of a run carries out one instruction, except that the first one carries out none if its machine
was waiting for a key already and its poll does not bring one. So the number of cycles that are over says
how many instructions the run has carried out, and a run that reaches its limit has carried out as many as
the limit says or one less. A run that is stopped before has carried out fewer, unless it is asked to stop
in the key wait of its last cycle, whose instruction has been carried out already.
-/

namespace Chip8Console.Host

/-- The machine of a run was waiting for a key, and the first poll of the run leaves it waiting. -/
def StaysParked (rig : Rig) (entry : Host) (polls : List Poll) : Prop :=
  entry.machine.waiting.isSome ∧
    ∃ first rest, polls = first :: rest ∧ answersWait ((entry.ready rig).brings first) = false

theorem staysParked_iff {rig : Rig} {entry : Host} {first : Poll} {rest : List Poll} :
    StaysParked rig entry (first :: rest) ↔
      ((entry.ready rig).poll first).1.machine.waiting.isSome := by
  rw [poll_waiting, (Rests.ready rig entry).waiting]
  cases hanswers : answersWait ((entry.ready rig).brings first) <;> simp [StaysParked, hanswers]

/-- What has been carried out since some moment, the latest first. -/
def HasCarriedOut (since : List Stamped) (instructions : List Instruction) (h : Host) : Prop :=
  ∃ events, h.history = events ++ since ∧ carriedOut events = instructions

namespace HasCarriedOut

variable {since : List Stamped} {instructions : List Instruction} {h next : Host}

theorem refl (h : Host) : h.HasCarriedOut h.history [] := ⟨[], rfl, rfl⟩

theorem idle (hh : h.HasCarriedOut since instructions) (hidle : Adds Event.idle h.history next.history) :
    next.HasCarriedOut since instructions := by
  obtain ⟨events, hhistory, rfl⟩ := hh
  obtain ⟨new, hnext, hnew⟩ := hidle
  exact ⟨new ++ events, by rw [hnext, hhistory, List.append_assoc], carriedOut_append hnew events⟩

theorem polled (hh : h.HasCarriedOut since instructions) {poll : Poll} {heard : Heard}
    (hpoll : h.poll poll = (next, heard)) : next.HasCarriedOut since instructions := by
  have hidle := poll_idle h poll
  rw [hpoll] at hidle
  exact hh.idle hidle

theorem after (hh : h.HasCarriedOut since instructions) {instruction : Instruction}
    (hcarries : h.CarriesOut instruction next) :
    next.HasCarriedOut since (instruction :: instructions) := by
  obtain ⟨events, hhistory, rfl⟩ := hh
  obtain ⟨noted, ⟨new, rfl, hnew⟩, hnext⟩ := hcarries.history
  refine ⟨⟨h.clock, .executed h.machine.pc instruction⟩ :: (new ++ events), ?_, ?_⟩
  · rw [hnext, hhistory, List.cons_append, List.append_assoc]
  · exact congrArg (instruction :: ·) (carriedOut_append hnew events)

end HasCarriedOut

/-- How many instructions a run has carried out when it ends with a poll in some phase, if its limit is
`limit` and `idle` of its cycles carry out nothing. -/
def WithinLimit (limit idle : Nat) (phase : Phase) (instructions : List Instruction) : Ending → Prop
  | .cycleLimit => instructions.length + idle = limit
  | .failed (.fault _) => instructions.length < limit
  | .quit => instructions.length < limit ∨ instructions.length = limit ∧
      ∃ x c, phase = .waiting x (some c) ∧ instructions.head? = some (.awaitKey x)
  | _ => True

/-- The way of a run that has a limit and of whose cycles `idle` carry out nothing. -/
def counting (since : List Stamped) (limit idle : Nat) : Itinerary where
  top c h := c.limit = some limit ∧ c.done < limit ∧ h.machine.waiting = none ∧
    ∃ instructions, h.HasCarriedOut since instructions ∧ instructions.length + idle = c.done
  heard c h := c.limit = some limit ∧ c.done < limit ∧
    ∃ instructions, h.HasCarriedOut since instructions ∧
      (h.machine.waiting = none → instructions.length + idle = c.done) ∧
      (h.machine.waiting.isSome → idle ≠ 0 ∧ instructions.length + idle = c.done + 1)
  waiting x c h := c.limit = some limit ∧ c.done < limit ∧
    ∃ instructions, h.HasCarriedOut since instructions ∧ instructions.length + idle = c.done + 1 ∧
      (idle = 0 → instructions.head? = some (.awaitKey x))
  behind c h := c.limit = some limit ∧ c.done < limit ∧ h.machine.waiting = none ∧
    ∃ instructions, h.HasCarriedOut since instructions ∧ instructions.length + idle = c.done + 1
  atEnd phase ending h :=
    ∃ instructions, h.HasCarriedOut since instructions ∧ WithinLimit limit idle phase instructions ending

theorem kept_counting (rig : Rig) (since : List Stamped) (limit idle : Nat) :
    (counting since limit idle).Kept rig where
  hear {c h next poll} htop hpoll := by
    obtain ⟨hlimit, hdone, hnone, instructions, hcarried, hcount⟩ := htop
    have hwaiting := waiting_of_poll hnone hpoll
    exact ⟨hlimit, hdone, instructions, hcarried.polled hpoll, fun _ => hcount, by simp [hwaiting]⟩
  quit {c h next poll} htop hpoll := by
    obtain ⟨-, hdone, -, instructions, hcarried, hcount⟩ := htop
    exact ⟨instructions, hcarried.polled hpoll, .inl (by omega)⟩
  fault {c h next f} hheard hstep := by
    obtain ⟨-, hdone, instructions, hcarried, hcount, -⟩ := hheard
    have hnone : h.machine.waiting = none := by
      have hfaults := Machine.faults_of_step (congrArg Prod.snd (machine_of_step hstep))
      cases hfaults <;> assumption
    refine ⟨instructions, hcarried.idle (rests_of_fault hstep).history, ?_⟩
    have hshort := hcount hnone
    show instructions.length < limit
    omega
  park {c h next x} hheard hstep hx := by
    obtain ⟨hlimit, hdone, instructions, hcarried, hcount, hparked⟩ := hheard
    refine ⟨hlimit, hdone, ?_⟩
    rcases step_parked hstep with ⟨hwaiting, hrests⟩ | ⟨y, hcarries, hy⟩
    · obtain ⟨hidle, hlength⟩ := hparked hwaiting
      exact ⟨instructions, hcarried.idle (hrests.trans (.note _ _)).history, hlength,
        fun hzero => absurd hzero hidle⟩
    · obtain rfl : y = x := Option.some.inj (hy.symm.trans hx)
      have hlength := hcount hcarries.waiting
      refine ⟨_, (hcarried.after hcarries).idle (Rests.note _ _).history, ?_, fun _ => rfl⟩
      rw [List.length_cons]
      omega
  advance {c h next} hheard hstep := by
    obtain ⟨hlimit, hdone, instructions, hcarried, hcount, -⟩ := hheard
    obtain ⟨⟨instruction, hcarries⟩, hnone⟩ := step_advanced hstep
    have hlength := hcount hcarries.waiting
    refine ⟨hlimit, hdone, hnone, _, hcarried.after hcarries, ?_⟩
    rw [List.length_cons]
    omega
  stay {x c h polled caught next poll} hwaits hpoll hcaught hredraw := by
    obtain ⟨hlimit, hdone, instructions, hcarried, hrest⟩ := hwaits
    have hrests := Rests.of_service hcaught hredraw next.pacer.period
    exact ⟨hlimit, hdone, instructions, (hcarried.polled hpoll).idle hrests.history, hrest⟩
  answer {x c h next poll} hwaits hpoll hnone := by
    obtain ⟨hlimit, hdone, instructions, hcarried, hlength, -⟩ := hwaits
    exact ⟨hlimit, hdone, hnone, instructions, hcarried.polled hpoll, hlength⟩
  giveUp {x c h next poll} hwaits hpoll := by
    obtain ⟨-, hdone, instructions, hcarried, hlength, hlast⟩ := hwaits
    have hpolled : next.HasCarriedOut since instructions := hcarried.polled hpoll
    refine ⟨instructions, hpolled, ?_⟩
    by_cases hfewer : instructions.length < limit
    · exact .inl hfewer
    · exact .inr ⟨by omega, x, c, rfl, hlast (by omega)⟩
  turn {c h caught next} hbehind hcaught hredraw hgoesOn := by
    obtain ⟨hlimit, -, hnone, instructions, hcarried, hlength⟩ := hbehind
    have hrests := Rests.of_service hcaught hredraw (rig.cycle - (next.clock - c.started))
    have hdone : c.done + 1 < limit := by simpa [hlimit] using hgoesOn
    exact ⟨hlimit, hdone, hrests.waiting.trans hnone, instructions, hcarried.idle hrests.history, hlength⟩
  limit {c h caught next} phase hbehind hcaught hredraw hreached := by
    obtain ⟨hlimit, hdone, -, instructions, hcarried, hlength⟩ := hbehind
    have hrests := Rests.of_service hcaught hredraw (rig.cycle - (next.clock - c.started))
    have hover : limit ≤ c.done + 1 := by simpa [hlimit] using hreached
    refine ⟨instructions, hcarried.idle hrests.history, ?_⟩
    show instructions.length + idle = limit
    omega

/-- The first cycle of a run carries out nothing exactly if its machine stays parked. -/
theorem leads_of_first {rig : Rig} {entry : Host} {limit idle : Nat} {first : Poll} {rest : List Poll}
    (hlimit : limit ≠ 0) (hidle : idle = 1 ∧ StaysParked rig entry (first :: rest) ∨
      idle = 0 ∧ ¬ StaysParked rig entry (first :: rest)) :
    let c : Cycle := ⟨some limit, 0, (entry.ready rig).clock⟩
    (counting entry.history limit idle).Leads rig (.top c)
      ((entry.ready rig).resume rig (.top c) first) := by
  have hcarried : (entry.ready rig).HasCarriedOut entry.history [] :=
    (HasCarriedOut.refl entry).idle (Rests.ready rig entry).history
  have hpos : 0 < limit := Nat.pos_of_ne_zero hlimit
  apply (kept_counting rig entry.history limit idle).resume_top
  · intro next hpoll
    refine ⟨rfl, hpos, [], hcarried.polled hpoll, ?_⟩
    rw [staysParked_iff, hpoll] at hidle
    rcases hidle with ⟨rfl, hparked⟩ | ⟨rfl, hparked⟩
    · exact ⟨fun hnone => by simp [hnone] at hparked, fun _ => ⟨Nat.one_ne_zero, rfl⟩⟩
    · exact ⟨fun _ => rfl, fun hwaiting => absurd hwaiting hparked⟩
  · intro next hpoll
    exact ⟨[], hcarried.polled hpoll, .inl hpos⟩

/-- A run that comes to its first poll, and where its last poll found it if that was in a key wait. -/
theorem leaves_of_limited_run {rig : Rig} {entry now : Host} {limit idle : Nat} {first : Poll}
    {rest left : List Poll} {ending : Ending} (hlimit : limit ≠ 0)
    (hidle : idle = 1 ∧ StaysParked rig entry (first :: rest) ∨
      idle = 0 ∧ ¬ StaysParked rig entry (first :: rest))
    (hstart : (Call.run (some limit)).start rig entry =
      .running (.top ⟨some limit, 0, (entry.ready rig).clock⟩) (entry.ready rig))
    (hfeed : ((entry.ready rig).resume rig (.top ⟨some limit, 0, (entry.ready rig).clock⟩) first).feed rig
      rest = (.ended ending now, left)) :
    ∃ phase, (counting entry.history limit idle).Leaves rig phase ending now ∧
      ∀ x c, phase = .waiting x (some c) → ∃ taken last h, first :: rest = taken ++ last :: left ∧
        (Call.run (some limit)).perform rig entry taken = (.running phase h, []) := by
  have hkept := kept_counting rig entry.history limit idle
  rcases hkept.ended (leads_of_first hlimit hidle) hfeed with
    ⟨-, hleaves⟩ | ⟨taken, last, phase, h, rfl, htaken, -, hleaves⟩
  · exact ⟨_, hleaves, fun x c htop => by cases htop⟩
  · refine ⟨phase, hleaves, fun x c _ => ⟨first :: taken, last, h, rfl, ?_⟩⟩
    rw [Call.perform, hstart]
    exact htaken

/-- The instructions that a run with a limit has carried out: as many as the limit says or, if the machine
stays parked in the first cycle, one less; fewer when the run is stopped before, unless it is asked to stop
in the key wait that the last of them has begun. -/
theorem instructions_of_limited_run {rig : Rig} {entry now : Host} {limit : Nat} {polls left : List Poll}
    {ending : Ending}
    (hrun : (Call.run (some limit)).perform rig entry polls = (.ended ending now, left)) :
    ∃ events, now.history = events ++ entry.history ∧
      (ending = .cycleLimit →
        (limit ≠ 0 ∧ StaysParked rig entry polls ∧ (carriedOut events).length = limit - 1) ∨
          (¬ (limit ≠ 0 ∧ StaysParked rig entry polls) ∧ (carriedOut events).length = limit)) ∧
      (∀ f, ending = .failed (.fault f) → (carriedOut events).length < limit) ∧
      (ending = .quit → (carriedOut events).length < limit ∨
        (carriedOut events).length = limit ∧
          ∃ taken last x c h, polls = taken ++ last :: left ∧
            (Call.run (some limit)).perform rig entry taken = (.running (.waiting x (some c)) h, []) ∧
            (carriedOut events).head? = some (.awaitKey x)) := by
  rcases run_cases hrun with
    ⟨reason, rfl, -⟩ | ⟨hlimit, rfl, hfinish⟩ | ⟨first, rest, rfl, hlimit, hstart, hfeed⟩
  · obtain ⟨events, hhistory⟩ := history_of_perform hrun
    exact ⟨events, hhistory.symm, by simp, by simp, by simp⟩
  · obtain rfl : limit = 0 := Option.some.inj hlimit
    have hcarried : now.HasCarriedOut entry.history [] :=
      (HasCarriedOut.refl entry).idle ((Rests.ready rig entry).trans (.of_finish hfinish)).history
    obtain ⟨events, hhistory, hnone⟩ := hcarried
    exact ⟨events, hhistory, fun _ => .inr ⟨by simp, by simp [hnone]⟩, by simp, by simp⟩
  · have hpos : limit ≠ 0 := fun hzero => hlimit (congrArg some hzero)
    obtain ⟨idle, hidle⟩ : ∃ idle, idle = 1 ∧ StaysParked rig entry (first :: rest) ∨
        idle = 0 ∧ ¬ StaysParked rig entry (first :: rest) := by
      by_cases hparked : StaysParked rig entry (first :: rest)
      · exact ⟨1, .inl ⟨rfl, hparked⟩⟩
      · exact ⟨0, .inr ⟨rfl, hparked⟩⟩
    obtain ⟨phase, hleaves, hwaiting⟩ := leaves_of_limited_run hpos hidle hstart hfeed
    obtain ⟨before, hfinish, ⟨reason, rfl⟩ | ⟨instructions, hcarried, hwithin⟩⟩ := hleaves
    · obtain ⟨events, hhistory⟩ := history_of_perform hrun
      exact ⟨events, hhistory.symm, by simp, by simp, by simp⟩
    · obtain ⟨events, hhistory, rfl⟩ := hcarried.idle (Rests.of_finish hfinish).history
      refine ⟨events, hhistory, ?_, ?_, ?_⟩
      · rintro rfl
        have hlength : (carriedOut events).length + idle = limit := hwithin
        rcases hidle with ⟨rfl, hparked⟩ | ⟨rfl, hparked⟩
        · exact .inl ⟨hpos, hparked, by omega⟩
        · exact .inr ⟨fun hstays => hparked hstays.2, hlength⟩
      · rintro f rfl
        exact hwithin
      · rintro rfl
        rcases hwithin with hfewer | ⟨hall, x, c, rfl, hlast⟩
        · exact .inl hfewer
        · obtain ⟨taken, last, h, hpolls, htaken⟩ := hwaiting x c rfl
          exact .inr ⟨hall, taken, last, x, c, h, hpolls, htaken, hlast⟩

/-- A host whose machine already waits for a key, and will go round in a loop of two instructions. -/
def parkedFirst : Host :=
  new (Machine.holding [0xF0, 0x0A, 0x60, 0x05, 0x12, 0x02]).step.1 (.ofLayout .conventional) 60 0

def lateKey : List Poll := [[], [.down 7], [], []].map fun es => .answered 0 (.events es)

theorem parkedFirst_carries_out_two :
    ∃ now left events,
      (Call.run (some 3)).perform .steady parkedFirst lateKey = (.ended .cycleLimit now, left) ∧
        now.history = events ++ parkedFirst.history ∧ (carriedOut events).length = 2 := by
  have hends : ((Call.run (some 3)).perform .steady parkedFirst lateKey).1.ends fun ending _ =>
      ending == .cycleLimit := by
    decide +kernel
  obtain ⟨now, left, hrun⟩ : ∃ now left,
      (Call.run (some 3)).perform .steady parkedFirst lateKey = (.ended .cycleLimit now, left) := by
    generalize (Call.run (some 3)).perform .steady parkedFirst lateKey = run at hends ⊢
    obtain ⟨stage, left⟩ := run
    obtain ⟨ending, now, rfl, hending⟩ := Stage.exists_of_ends hends
    rw [beq_iff_eq.1 hending]
    exact ⟨now, left, rfl⟩
  have hparked : StaysParked .steady parkedFirst lateKey := ⟨by decide +kernel, _, _, rfl, rfl⟩
  obtain ⟨events, hhistory, hlimit, -⟩ := instructions_of_limited_run hrun
  rcases hlimit rfl with ⟨-, -, hlength⟩ | ⟨hstays, -⟩
  · exact ⟨now, left, events, hrun, hhistory, hlength⟩
  · exact absurd ⟨by decide, hparked⟩ hstays

end Chip8Console.Host
