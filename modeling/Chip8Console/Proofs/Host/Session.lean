import Chip8Console.Proofs.Host.Course
import Mathlib.Logic.Relation

/-!
# Sessions of calls

A session makes calls on one host, each when the one before it has ended and with the polls that one
has left. A call goes from poll to poll, and between two polls it does one of a few things after
another: `Does` lists them, and `Meanwhile`, which is what may become of a host by them, is a course that
every call keeps. Another is a property that is kept by all that a call does, polls included: it holds at
every stage of a session.
-/

namespace Chip8Console

def Host.new (machine : Machine) (keyboard : Keyboard) (timerRate : UInt32) (time : Nat) : Host :=
  { Host.ofMachine machine keyboard timerRate with clock := time, timersAt := time }

/-- A rig whose draws cost nothing and whose speaker works. -/
def Rig.steady : Rig := ⟨periodOf 700, fun _ => .ok 0, fun _ _ => none⟩

/-- A call, made when some time has passed. -/
structure Turn where
  pause : Nat
  call : Call

/-- What the calls of a session come to, up to the first that does not end. -/
def Host.session (rig : Rig) (h : Host) (polls : List Poll) : List Turn → List Stage
  | [] => []
  | turn :: turns =>
    match turn.call.perform rig (h.elapse turn.pause) polls with
    | (.ended ending h, left) => .ended ending h :: h.session rig left turns
    | (stage, _) => [stage]

/-- A property of the host of a stage; nothing is asked of a call that has stalled. -/
def Stage.Holds (P : Host → Prop) : Stage → Prop
  | .running _ h | .ended _ h => P h
  | .stalled => True

instance {P : Host → Prop} [DecidablePred P] : DecidablePred (Stage.Holds P)
  | .running _ h => inferInstanceAs (Decidable (P h))
  | .ended _ h => inferInstanceAs (Decidable (P h))
  | .stalled => .isTrue trivial

def Stage.ends (p : Ending → Host → Bool) : Stage → Bool
  | .ended ending h => p ending h
  | _ => false

theorem Stage.exists_of_ends {p : Ending → Host → Bool} {stage : Stage} (h : stage.ends p) :
    ∃ ending host, stage = .ended ending host ∧ p ending host := by
  cases stage with
  | running phase host => cases h
  | ended ending host => exact ⟨ending, host, rfl, h⟩
  | stalled => cases h

theorem Stage.Holds.mono {P Q : Host → Prop} {stage : Stage} (hstage : stage.Holds P)
    (himp : ∀ h, P h → Q h) : stage.Holds Q := by
  cases stage with
  | running phase h => exact himp h hstage
  | ended ending h => exact himp h hstage
  | stalled => trivial

theorem Stage.Holds.and {P Q : Host → Prop} {stage : Stage} (hP : stage.Holds P) (hQ : stage.Holds Q) :
    stage.Holds fun h => P h ∧ Q h := by
  cases stage with
  | running phase h => exact ⟨hP, hQ⟩
  | ended ending h => exact ⟨hP, hQ⟩
  | stalled => trivial

theorem Stage.holds_of_on {P : Host → Prop} {stalls : Prop} {stage : Stage}
    (h : stage.On (.throughout P stalls)) : stage.Holds P := by
  cases stage with
  | running phase host => exact h
  | ended ending host => exact h
  | stalled => trivial

@[simp] theorem Stage.feed_ended (rig : Rig) (ending : Ending) (h : Host) (polls : List Poll) :
    (Stage.ended ending h).feed rig polls = (.ended ending h, polls) := by
  cases polls <;> rfl

@[simp] theorem Stage.feed_stalled (rig : Rig) (polls : List Poll) :
    Stage.stalled.feed rig polls = (.stalled, polls) := by
  cases polls <;> rfl

/-- A call that is still running has used up its polls. -/
theorem Stage.left_eq_nil_of_running {rig : Rig} {stage : Stage} {polls : List Poll} {phase : Phase}
    {h : Host} (hrunning : (stage.feed rig polls).1 = .running phase h) :
    (stage.feed rig polls).2 = [] := by
  induction polls generalizing stage with
  | nil => cases stage <;> rfl
  | cons poll polls ih =>
      cases stage with
      | running phase h => exact ih hrunning
      | ended ending h => cases hrunning
      | stalled => cases hrunning

theorem Host.session_holds {rig : Rig} {P : Host → Prop}
    (hperform : ∀ h time call polls, P h → (Call.perform rig (h.elapse time) call polls).1.Holds P)
    {h : Host} (hh : P h) (polls : List Poll) (turns : List Turn) :
    ∀ stage ∈ h.session rig polls turns, stage.Holds P := by
  induction turns generalizing h polls with
  | nil => simp [session]
  | cons turn turns ih =>
      have hstage := hperform h turn.pause turn.call polls hh
      rw [session]
      split
      · next ending h' left heq =>
        rw [heq] at hstage
        intro stage hmem
        rcases List.mem_cons.1 hmem with rfl | hmem
        · exact hstage
        · exact ih hstage left stage hmem
      · next stage left _ heq =>
        rw [heq] at hstage
        intro reached hmem
        rw [List.mem_singleton.1 hmem]
        exact hstage

namespace Host

/-! ## From one poll to the next -/

/-- The things that a host does between two polls, in a call and from one call to the next. -/
inductive Does (rig : Rig) : Host → Host → Prop where
  | record (h : Host) {e : Event} (hquiet : e.quiet) : Does rig h (h.record e)
  | elapse (h : Host) (time : Nat) : Does rig h (h.elapse time)
  | step (h : Host) : Does rig h h.step.1
  | present (h : Host) : Does rig h (h.present rig).1
  | abandon (h : Host) : Does rig h { h with machine := h.machine.abandonWait }
  /-- A run that begins counts the timers' time anew. -/
  | recount (h : Host) : Does rig h { h with timersAt := h.clock }
  | catchUp {h next : Host} (hcaught : h.catchUp rig = some next) : Does rig h next
  | finish {h next : Host} (ending : Ending) (hended : h.finish rig ending = .ended ending next) :
      Does rig h next

/-- What may become of a host before its next poll. -/
def Meanwhile (rig : Rig) (h next : Host) : Prop := Relation.ReflTransGen (Does rig) h next

namespace Meanwhile

variable {rig : Rig} {first h next : Host}

theorem refl (h : Host) : h.Meanwhile rig h := Relation.ReflTransGen.refl

theorem after (hm : first.Meanwhile rig h) (hdoes : Does rig h next) : first.Meanwhile rig next :=
  Relation.ReflTransGen.tail hm hdoes

/-- What each of the things done keeps, all of them keep. -/
theorem induction {P : Host → Prop} (hm : h.Meanwhile rig next)
    (hdoes : ∀ h next, Does rig h next → P h → P next) (hh : P h) : P next := by
  induction hm with
  | refl => exact hh
  | tail _ does ih => exact hdoes _ _ does ih

theorem of_step (hm : first.Meanwhile rig h) {outcome : Outcome} (hstep : h.step = (next, outcome)) :
    first.Meanwhile rig next := by
  have hdone := hm.after (.step h)
  rw [hstep] at hdone
  exact hdone

theorem of_present (hm : first.Meanwhile rig h) {failure : Option String}
    (hpresent : h.present rig = (next, failure)) : first.Meanwhile rig next := by
  have hdone := hm.after (.present h)
  rw [hpresent] at hdone
  exact hdone

theorem of_redraw (hm : first.Meanwhile rig h) {failure : Option String}
    (hredraw : h.redraw rig = (next, failure)) : first.Meanwhile rig next := by
  unfold Host.redraw at hredraw
  split at hredraw
  · exact hm.of_present hredraw
  · cases hredraw
    exact hm

/-- What may become of a host is a course of its own. -/
theorem kept_throughout (rig : Rig) (first : Host) :
    (Course.throughout (first.Meanwhile rig) True).Kept rig where
  await _ hm := hm.after (.record _ rfl)
  elapse time hm := hm.after (.elapse _ time)
  abandon hm := hm.after (.abandon _)
  advance hm hstep := hm.of_step hstep
  stay hm hstep _ := hm.of_step hstep
  lag hm := hm
  stall _ _ := trivial
  shown hm hcaught hredraw := (hm.after (.catchUp hcaught)).of_redraw hredraw
  lost hm hcaught hredraw := (hm.after (.catchUp hcaught)).of_redraw hredraw
  stop _ hm := hm
  finish hm hended := hm.after (.finish _ hended)

/-- The stage that a poll leads to is one that the host comes to once it has heard the poll. -/
theorem resume (rig : Rig) (h : Host) (phase : Phase) (poll : Poll) :
    (h.resume rig phase poll).Holds ((h.poll poll).1.Meanwhile rig) :=
  Stage.holds_of_on ((kept_throughout rig _).resume (refl _) phase)

theorem start (rig : Rig) (h : Host) (call : Call) :
    (call.start rig h).Holds (h.Meanwhile rig) := by
  apply Stage.holds_of_on
  cases call with
  | wait => exact (kept_throughout rig h).beginWait (refl h) none
  | run limit =>
      have hnoted : h.Meanwhile rig (h.note (.starting h.machine.pc rig.cycle)) :=
        (refl h).after (.record h rfl)
      have hopened : h.Meanwhile rig (h.opened rig) := hnoted.after (.recount _)
      exact (kept_throughout rig h).startRun limit (fun _ hpresent => hopened.of_present hpresent)
        fun _ _ hpresent => hopened.of_present hpresent

end Meanwhile

/-! ## What calls keep -/

/-- A property kept by quiet changes and by the three that are not quiet: a run that begins counts
the timers' time anew, the timers are brought up to date, and a run ends. -/
structure Kept (rig : Rig) (P : Host → Prop) : Prop where
  quiet : ∀ {h h'}, h.Quiet h' → P h → P h'
  recount : ∀ {h : Host}, P h → P { h with timersAt := h.clock }
  catchUp : ∀ {h h'}, h.catchUp rig = some h' → P h → P h'
  finish : ∀ {h : Host} (ending : Ending), P h → (h.finish rig ending).Holds P

namespace Kept

variable {rig : Rig} {P : Host → Prop} {h : Host}

/-- In a call, once it has begun, it is kept on course. -/
theorem course (kept : Kept rig P) : (Course.throughout P (∃ h, P h)).Kept rig := by
  apply Course.kept_throughout kept.quiet (fun hh _ => ⟨_, hh⟩) fun hh hcaught => kept.catchUp hcaught hh
  intro h next ending hh hfinish
  have hended := kept.finish ending hh
  rw [hfinish] at hended
  exact hended

theorem start (kept : Kept rig P) (hh : P h) (call : Call) :
    (call.start rig h).On (.throughout P (∃ h, P h)) := by
  cases call with
  | wait => exact kept.course.beginWait hh none
  | run limit =>
      have hopened : P (h.opened rig) := kept.recount (kept.quiet (.record h rfl) hh)
      exact kept.course.startRun limit (fun _ hpresent => kept.quiet (.of_present hpresent) hopened)
        fun _ _ hpresent => kept.quiet (.of_present hpresent) hopened

/-- What the parts of a call keep, the call keeps. -/
theorem perform (kept : Kept rig P) (hh : P h) (call : Call) (polls : List Poll) :
    (call.perform rig h polls).1.Holds P :=
  Stage.holds_of_on
    (kept.course.feed (fun h poll hh => kept.quiet (.poll h poll) hh) polls (kept.start hh call))

/-- What the parts of a call keep, a session keeps. -/
theorem session (kept : Kept rig P) (hh : P h) (polls : List Poll) (turns : List Turn) :
    ∀ stage ∈ h.session rig polls turns, stage.Holds P :=
  session_holds (fun h time call polls hh => kept.perform (kept.quiet (.elapse h time) hh) call polls) hh
    polls turns

end Kept

/-- A history only grows, so what it does not lose by growing is kept. -/
theorem kept_of_suffix (rig : Rig) {P : List Stamped → Prop}
    (hgrow : ∀ {old history : List Stamped}, old <:+ history → P old → P history) :
    Kept rig fun h => P h.history where
  quiet hquiet hh := hgrow hquiet.history.suffix hh
  recount hh := hh
  catchUp {h next} hcaught hh := by
    obtain ⟨pacer, timers, ticks, -, rfl⟩ := catchUp_eq_some hcaught
    have hspoken := Spoken.followTone rig (h.ticked pacer timers)
    exact hgrow (hspoken.history.suffix.trans (List.suffix_cons _ _)) hh
  finish {h} ending hh := by
    have hsilenced := (Spoken.silence rig h).history.suffix
    obtain ⟨next, hended⟩ := h.exists_finish rig ending
    rw [hended]
    obtain ⟨n, rfl⟩ := exists_note_of_finish hended
    exact hgrow (hsilenced.trans (List.suffix_cons _ _)) hh

theorem history_of_perform {rig : Rig} {entry now : Host} {call : Call} {polls left : List Poll}
    {ending : Ending} (hended : call.perform rig entry polls = (.ended ending now, left)) :
    entry.history <:+ now.history := by
  have hkept : Kept rig fun h => entry.history <:+ h.history :=
    kept_of_suffix rig fun hgrow hold => hold.trans hgrow
  have hholds := hkept.perform (List.suffix_refl entry.history) call polls
  rw [hended] at hholds
  exact hholds

end Host

end Chip8Console
