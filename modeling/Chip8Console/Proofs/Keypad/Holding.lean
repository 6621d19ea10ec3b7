import Chip8Console.Keypad.Keyboard
import Chip8Console.Proofs.Keypad.Levels

/-!
# Which keys a keyboard holds

A keyboard is polled again and again, each time with a batch of keystrokes and the time it is. What the
keyboard reports can be told from the batches alone: a key is held after a poll exactly if the latest
batch that has a press of it is less than the hold time old, and its ups and downs take turns, a down
first.

The table of a keyboard keeps, for every key that it holds, the time of the latest batch with a press
of that key. A key that it does not hold has not been pressed for at least the hold time. `Recalls` says
so, and a poll keeps it.
-/

namespace Chip8Console

/-- The keystrokes that one poll reads, and when. -/
structure Batch where
  time : Nat
  strokes : List Keystroke
  deriving DecidableEq

namespace Layout

/-- The key of the keypad that a keystroke presses. A wish to stop presses none. -/
def pressed? (layout : Layout) (stroke : Keystroke) : Option Nibble :=
  if Keyboard.asksToStop stroke then none else (Keyboard.ofLayout layout).target? stroke

def presses (layout : Layout) (k : Nibble) (stroke : Keystroke) : Bool :=
  layout.pressed? stroke == some k

/-- The latest batch with a press of a key was at this time. -/
def LastPressed (layout : Layout) (batches : List Batch) (k : Nibble) (time : Nat) : Prop :=
  (∃ b ∈ batches, b.strokes.any (layout.presses k) ∧ b.time = time) ∧
    ∀ b ∈ batches, b.strokes.any (layout.presses k) → b.time ≤ time

/-- At a time, the latest press of a key is less than the hold time old. -/
def Holds (layout : Layout) (batches : List Batch) (now : Nat) (k : Nibble) : Prop :=
  ∃ time, layout.LastPressed batches k time ∧ now - time < Keyboard.holdTime

theorem LastPressed.unique {layout : Layout} {batches : List Batch} {k : Nibble} {s t : Nat}
    (hs : layout.LastPressed batches k s) (ht : layout.LastPressed batches k t) : s = t := by
  obtain ⟨⟨b, hb, hpress, rfl⟩, hle⟩ := hs
  obtain ⟨⟨b', hb', hpress', rfl⟩, hle'⟩ := ht
  exact Nat.le_antisymm (hle' b hb hpress) (hle b' hb' hpress')

/-- What one more batch, no earlier than those before it, does to the latest press of a key. -/
theorem lastPressed_append {layout : Layout} {past : List Batch} {b : Batch} {k : Nibble}
    (hsorted : ∀ p ∈ past, p.time ≤ b.time) (time : Nat) :
    layout.LastPressed (past ++ [b]) k time ↔
      if b.strokes.any (layout.presses k) then time = b.time else layout.LastPressed past k time := by
  unfold LastPressed
  simp only [List.mem_append, List.mem_singleton]
  by_cases hpress : b.strokes.any (layout.presses k)
  · rw [if_pos hpress]
    constructor
    · rintro ⟨⟨p, hp, -, rfl⟩, hle⟩
      apply Nat.le_antisymm ?_ (hle b (.inr rfl) hpress)
      rcases hp with hp | rfl
      · exact hsorted p hp
      · exact Nat.le_refl _
    · rintro rfl
      refine ⟨⟨b, .inr rfl, hpress, rfl⟩, ?_⟩
      rintro p (hp | rfl) -
      · exact hsorted p hp
      · exact Nat.le_refl _
  · rw [if_neg hpress]
    constructor
    · rintro ⟨⟨p, hp, hpressed, htime⟩, hle⟩
      rcases hp with hp | rfl
      · exact ⟨⟨p, hp, hpressed, htime⟩, fun q hq => hle q (.inl hq)⟩
      · exact absurd hpressed hpress
    · rintro ⟨⟨p, hp, hpressed, htime⟩, hle⟩
      refine ⟨⟨p, .inl hp, hpressed, htime⟩, ?_⟩
      rintro q (hq | rfl) hqpress
      · exact hle q hq hqpress
      · exact absurd hqpress hpress

end Layout

namespace Keyboard

/-- What a keyboard reports of several polls. -/
def attend (kb : Keyboard) : List Batch → Keyboard × List KeyEvent
  | [] => (kb, [])
  | b :: rs =>
    let (kb, first) := kb.poll b.time b.strokes
    let (kb, rest) := kb.attend rs
    (kb, first ++ rest)

theorem mem_held {kb : Keyboard} {k : Nibble} : k ∈ kb.held ↔ kb.since[k].isSome := by
  simp [held]

theorem ofLayout_since (layout : Layout) (k : Nibble) : (ofLayout layout).since[k] = none :=
  Vector.getElem_replicate k.isLt

/-! ### What a keystroke does -/

section Strike

variable {kb : Keyboard} {now : Nat}

theorem strike_of_pressed {stroke : Keystroke} {k : Nibble} (h : kb.layout.pressed? stroke = some k) :
    kb.strike now stroke =
      ({ kb with since := Nibble.put kb.since k (some now) },
        if kb.since[k].isNone then [.down (UInt8.ofNat k.val)] else []) := by
  unfold Layout.pressed? at h
  split at h
  · cases h
  · next hstop =>
    have htarget : kb.target? stroke = some k := h
    simp only [strike, hstop, htarget, Bool.false_eq_true, if_false]

theorem strike_of_not_pressed {stroke : Keystroke} (h : kb.layout.pressed? stroke = none) :
    kb.strike now stroke = (kb, if asksToStop stroke then [.quit] else []) := by
  unfold Layout.pressed? at h
  split at h
  · next hstop => simp only [strike, hstop, if_true]
  · next hstop =>
    have htarget : kb.target? stroke = none := h
    simp only [strike, hstop, htarget, Bool.false_eq_true, if_false]

theorem strike_layout (stroke : Keystroke) : (kb.strike now stroke).1.layout = kb.layout := by
  cases h : kb.layout.pressed? stroke with
  | none => rw [strike_of_not_pressed h]
  | some k => rw [strike_of_pressed h]

theorem strike_since (stroke : Keystroke) (k : Nibble) :
    (kb.strike now stroke).1.since[k] =
      if kb.layout.presses k stroke then some now else kb.since[k] := by
  unfold Layout.presses
  cases h : kb.layout.pressed? stroke with
  | none => rw [strike_of_not_pressed h]; rfl
  | some j =>
      rw [strike_of_pressed h, getElem_put_nibble]
      simp

theorem strikes_cons (stroke : Keystroke) (strokes : List Keystroke) :
    kb.strikes now (stroke :: strokes) =
      (((kb.strike now stroke).1.strikes now strokes).1,
        (kb.strike now stroke).2 ++ ((kb.strike now stroke).1.strikes now strokes).2) := rfl

theorem strikes_layout (strokes : List Keystroke) :
    (kb.strikes now strokes).1.layout = kb.layout := by
  induction strokes generalizing kb with
  | nil => rfl
  | cons stroke strokes ih => exact ih.trans (strike_layout stroke)

theorem strikes_since (strokes : List Keystroke) (k : Nibble) :
    (kb.strikes now strokes).1.since[k] =
      if strokes.any (kb.layout.presses k) then some now else kb.since[k] := by
  induction strokes generalizing kb with
  | nil => rfl
  | cons stroke strokes ih =>
      rw [strikes_cons, ih, strike_layout, strike_since, List.any_cons]
      cases kb.layout.presses k stroke <;> simp

end Strike

/-! ### What a poll does to the table -/

section Poll

variable {kb : Keyboard} {now : Nat}

theorem overdue_iff {k : Nibble} :
    kb.overdue now k ↔ ∃ time, kb.since[k] = some time ∧ holdTime ≤ now - time := by
  unfold overdue
  cases kb.since[k] with
  | none => simp
  | some time => simp

theorem releaseOverdue_layout : (kb.releaseOverdue now).1.layout = kb.layout := by
  rw [releaseOverdue]

theorem releaseOverdue_since (k : Nibble) :
    (kb.releaseOverdue now).1.since[k] = if kb.overdue now k then none else kb.since[k] := by
  rw [releaseOverdue, getElem_ofFn_nibble]

theorem poll_eq (strokes : List Keystroke) :
    kb.poll now strokes =
      (((kb.strikes now strokes).1.releaseOverdue now).1,
        (kb.strikes now strokes).2 ++ ((kb.strikes now strokes).1.releaseOverdue now).2) := rfl

theorem poll_layout (strokes : List Keystroke) : (kb.poll now strokes).1.layout = kb.layout := by
  rw [poll_eq, releaseOverdue_layout, strikes_layout]

theorem poll_since (strokes : List Keystroke) (k : Nibble) :
    (kb.poll now strokes).1.since[k] =
      if strokes.any (kb.layout.presses k) then some now
      else if kb.overdue now k then none else kb.since[k] := by
  rw [poll_eq, releaseOverdue_since]
  unfold overdue
  rw [strikes_since]
  by_cases hpress : strokes.any (kb.layout.presses k)
  · simp [hpress, holdTime]
  · simp [hpress]

end Poll

/-- The table of a keyboard agrees with what has been read so far. -/
structure Recalls (kb : Keyboard) (past : List Batch) (now : Nat) : Prop where
  past_le : ∀ b ∈ past, b.time ≤ now
  held : ∀ k time, kb.since[k] = some time →
    kb.layout.LastPressed past k time ∧ now - time < holdTime
  free : ∀ k, kb.since[k] = none →
    ∀ time, kb.layout.LastPressed past k time → holdTime ≤ now - time

namespace Recalls

variable {kb : Keyboard} {past : List Batch} {now : Nat}

theorem ofLayout (layout : Layout) (now : Nat) : (Keyboard.ofLayout layout).Recalls [] now := by
  refine ⟨by simp, ?_, ?_⟩
  · intro k time hsince
    rw [ofLayout_since] at hsince
    cases hsince
  · rintro k - time ⟨⟨b, hb, -⟩, -⟩
    cases hb

theorem poll (h : kb.Recalls past now) {b : Batch} (hb : now ≤ b.time) :
    (kb.poll b.time b.strokes).1.Recalls (past ++ [b]) b.time := by
  have hsorted : ∀ p ∈ past, p.time ≤ b.time := fun p hp => Nat.le_trans (h.past_le p hp) hb
  have hlast (k : Nibble) (time : Nat) : kb.layout.LastPressed (past ++ [b]) k time ↔ _ :=
    Layout.lastPressed_append hsorted time
  refine ⟨?_, ?_, ?_⟩
  · intro p hp
    rcases List.mem_append.1 hp with hp | hp
    · exact hsorted p hp
    · rw [List.mem_singleton.1 hp]
  · intro k time hsince
    rw [poll_layout, hlast]
    rw [poll_since] at hsince
    by_cases hpress : b.strokes.any (kb.layout.presses k)
    · rw [if_pos hpress] at hsince ⊢
      obtain rfl := Option.some.inj hsince
      exact ⟨rfl, by simp [holdTime]⟩
    · rw [if_neg hpress] at hsince ⊢
      split at hsince
      · cases hsince
      · next hfresh =>
        refine ⟨(h.held k time hsince).1, ?_⟩
        rw [overdue_iff] at hfresh
        exact Nat.lt_of_not_le fun hold => hfresh ⟨time, hsince, hold⟩
  · intro k hsince time
    rw [poll_layout, hlast]
    rw [poll_since] at hsince
    by_cases hpress : b.strokes.any (kb.layout.presses k)
    · rw [if_pos hpress] at hsince
      cases hsince
    · rw [if_neg hpress] at hsince ⊢
      intro htime
      split at hsince
      · next hoverdue =>
        obtain ⟨since, hsome, hold⟩ := overdue_iff.1 hoverdue
        rw [htime.unique (h.held k since hsome).1]
        exact hold
      · have hlong := h.free k hsince time htime
        omega

/-- The keys that go up at the end of a poll. -/
theorem overdue_iff (h : kb.Recalls past now) {b : Batch} (hb : now ≤ b.time) (k : Nibble) :
    (kb.strikes b.time b.strokes).1.overdue b.time k ↔
      (k ∈ kb.held ∨ b.strokes.any (kb.layout.presses k)) ∧
        ∃ time, kb.layout.LastPressed (past ++ [b]) k time ∧ holdTime ≤ b.time - time := by
  have hsorted : ∀ p ∈ past, p.time ≤ b.time := fun p hp => Nat.le_trans (h.past_le p hp) hb
  have hlast (time : Nat) : kb.layout.LastPressed (past ++ [b]) k time ↔ _ :=
    Layout.lastPressed_append hsorted time
  simp only [Keyboard.overdue_iff, strikes_since, hlast, mem_held]
  by_cases hpress : b.strokes.any (kb.layout.presses k)
  · simp [hpress, holdTime]
  · simp only [hpress, Bool.false_eq_true, if_false, or_false]
    constructor
    · rintro ⟨time, hsince, hold⟩
      exact ⟨by rw [hsince]; rfl, time, (h.held k time hsince).1, hold⟩
    · rintro ⟨hsome, time, htime, hold⟩
      obtain ⟨since, hsince⟩ := Option.isSome_iff_exists.1 hsome
      rw [htime.unique (h.held k since hsince).1] at hold
      exact ⟨since, hsince, hold⟩

/-- The keys that a keyboard holds are those whose latest press is less than the hold time old. -/
theorem mem_held_iff (h : kb.Recalls past now) (k : Nibble) :
    k ∈ kb.held ↔ kb.layout.Holds past now k := by
  rw [mem_held]
  cases hsince : kb.since[k] with
  | none =>
      simp only [Option.isSome_none, Bool.false_eq_true, false_iff]
      rintro ⟨time, hlast, hrecent⟩
      exact absurd (h.free k hsince time hlast) (Nat.not_le_of_lt hrecent)
  | some time =>
      simp only [Option.isSome_some, true_iff]
      exact ⟨time, h.held k time hsince⟩

end Recalls

/-! ### What a poll reports -/

/-- A keyboard reports the ups and downs of its keys. -/
structure Reports (kb : Keyboard) (es : List KeyEvent) (next : Keyboard) : Prop where
  turns : ∀ k, TakeTurns k kb.since[k].isSome es
  level : ∀ k, next.since[k].isSome = levelAfter k kb.since[k].isSome es

namespace Reports

variable {kb middle next : Keyboard} {es fs : List KeyEvent} {now : Nat}

theorem refl (kb : Keyboard) : kb.Reports [] kb := ⟨fun _ => takeTurns_nil, fun _ => rfl⟩

theorem trans (first : kb.Reports es middle) (second : middle.Reports fs next) :
    kb.Reports (es ++ fs) next := by
  refine ⟨fun k => ?_, fun k => ?_⟩
  · have hsecond := second.turns k
    rw [first.level] at hsecond
    exact (first.turns k).append hsecond
  · rw [levelAfter_append, ← first.level]
    exact second.level k

theorem strike (kb : Keyboard) (now : Nat) (stroke : Keystroke) :
    kb.Reports (kb.strike now stroke).2 (kb.strike now stroke).1 := by
  cases h : kb.layout.pressed? stroke with
  | none =>
      rw [strike_of_not_pressed h]
      have hedges (k : Nibble) : edges k (if asksToStop stroke then [.quit] else []) = [] := by
        split <;> rfl
      refine ⟨fun k => takeTurns_of_edges_nil (hedges k), fun k => ?_⟩
      rw [levelAfter, hedges]
      rfl
  | some j =>
      have hedges (k : Nibble) :
          edges k (if kb.since[j].isNone then [.down (UInt8.ofNat j.val)] else []) =
            if kb.since[j].isNone ∧ j = k then [true] else [] := by
        by_cases hfree : kb.since[j].isNone
        · simp only [hfree, if_true, edges_down, true_and]
        · simp [hfree, edges]
      rw [strike_of_pressed h]
      refine ⟨fun k => ?_, fun k => ?_⟩
      · by_cases hdown : kb.since[j].isNone ∧ j = k
        · obtain ⟨hfree, rfl⟩ := hdown
          apply takeTurns_of_edges_single true
          · rw [hedges, if_pos ⟨hfree, rfl⟩]
          · simpa using hfree
        · apply takeTurns_of_edges_nil
          rw [hedges, if_neg hdown]
      · rw [levelAfter, hedges, getElem_put_nibble]
        by_cases hkey : j = k
        · subst hkey
          cases kb.since[j] <;> simp
        · simp [hkey]

theorem strikes (kb : Keyboard) (now : Nat) (strokes : List Keystroke) :
    kb.Reports (kb.strikes now strokes).2 (kb.strikes now strokes).1 := by
  induction strokes generalizing kb with
  | nil => exact refl kb
  | cons stroke strokes ih => exact (strike kb now stroke).trans (ih _)

theorem releaseOverdue (kb : Keyboard) (now : Nat) :
    kb.Reports (kb.releaseOverdue now).2 (kb.releaseOverdue now).1 := by
  have hedges (k : Nibble) :
      edges k (kb.releaseOverdue now).2 = if kb.overdue now k then [false] else [] := by
    by_cases hoverdue : kb.overdue now k
    · rw [if_pos hoverdue]
      apply edges_ups_of_mem ((List.nodup_finRange 16).filter _)
      exact List.mem_filter.2 ⟨List.mem_finRange k, hoverdue⟩
    · rw [if_neg hoverdue]
      apply edges_ups_of_not_mem
      exact fun hmem => hoverdue (List.mem_filter.1 hmem).2
  refine ⟨fun k => ?_, fun k => ?_⟩
  · by_cases hoverdue : kb.overdue now k
    · obtain ⟨time, hsince, -⟩ := overdue_iff.1 hoverdue
      apply takeTurns_of_edges_single false
      · rw [hedges, if_pos hoverdue]
      · simp [hsince]
    · apply takeTurns_of_edges_nil
      rw [hedges, if_neg hoverdue]
  · rw [levelAfter, hedges, releaseOverdue_since]
    by_cases hoverdue : kb.overdue now k <;> simp [hoverdue]

theorem poll (kb : Keyboard) (now : Nat) (strokes : List Keystroke) :
    kb.Reports (kb.poll now strokes).2 (kb.poll now strokes).1 :=
  (Reports.strikes kb now strokes).trans (releaseOverdue _ now)

theorem attend (kb : Keyboard) (batches : List Batch) :
    kb.Reports (kb.attend batches).2 (kb.attend batches).1 := by
  induction batches generalizing kb with
  | nil => exact refl kb
  | cons b batches ih => exact (poll kb b.time b.strokes).trans (ih _)

end Reports

theorem asksToStop_of_quit_mem_strike {kb : Keyboard} {now : Nat} {stroke : Keystroke}
    (h : .quit ∈ (kb.strike now stroke).2) : asksToStop stroke := by
  cases hkey : kb.layout.pressed? stroke with
  | some k =>
      rw [strike_of_pressed hkey] at h
      split at h <;> simp at h
  | none =>
      rw [strike_of_not_pressed hkey] at h
      split at h
      · assumption
      · cases h

/-- Only a stroke that asks for it makes a keyboard report a wish to stop. -/
theorem asksToStop_of_quit_mem_poll {kb : Keyboard} {now : Nat} {strokes : List Keystroke}
    (h : .quit ∈ (kb.poll now strokes).2) : ∃ stroke ∈ strokes, asksToStop stroke := by
  rw [poll_eq, List.mem_append] at h
  rcases h with h | h
  · induction strokes generalizing kb with
    | nil => cases h
    | cons stroke strokes ih =>
        rw [strikes_cons, List.mem_append] at h
        rcases h with h | h
        · exact ⟨stroke, List.mem_cons_self, asksToStop_of_quit_mem_strike h⟩
        · obtain ⟨later, hmem, hstop⟩ := ih h
          exact ⟨later, List.mem_cons_of_mem _ hmem, hstop⟩
  · simp [releaseOverdue] at h

/-- What a keystroke makes a keyboard report when it comes after some others in the same poll. -/
def announce (kb : Keyboard) (struck : List Keystroke) (stroke : Keystroke) : List KeyEvent :=
  if asksToStop stroke then [.quit]
  else
    match kb.layout.pressed? stroke with
    | none => []
    | some k =>
      if k ∈ kb.held ∨ struck.any (kb.layout.presses k) then [] else [.down (UInt8.ofNat k.val)]

section Announce

variable {kb current : Keyboard} {now : Nat} {struck : List Keystroke}

theorem strike_announces (hlayout : current.layout = kb.layout)
    (hheld : ∀ k, k ∈ current.held ↔ k ∈ kb.held ∨ struck.any (kb.layout.presses k))
    (stroke : Keystroke) : (current.strike now stroke).2 = kb.announce struck stroke := by
  cases h : kb.layout.pressed? stroke with
  | none =>
      rw [strike_of_not_pressed (hlayout ▸ h), announce, h]
  | some k =>
      have hgoesOn : asksToStop stroke = false := by
        by_contra hstop
        simp [Layout.pressed?, hstop] at h
      rw [strike_of_pressed (hlayout ▸ h), announce, h, hgoesOn]
      have hk := hheld k
      rw [mem_held] at hk
      simp only [Bool.false_eq_true, if_false]
      by_cases hdown : k ∈ kb.held ∨ struck.any (kb.layout.presses k)
      · rw [if_pos hdown, Option.isNone_eq_false_iff.2 (hk.2 hdown)]
        rfl
      · have hnone : current.since[k].isNone := by simpa using mt hk.1 hdown
        rw [if_neg hdown, if_pos hnone]

theorem strikes_announce (hlayout : current.layout = kb.layout)
    (hheld : ∀ k, k ∈ current.held ↔ k ∈ kb.held ∨ struck.any (kb.layout.presses k))
    (strokes : List Keystroke) :
    (current.strikes now strokes).2 =
      (strokes.mapIdx fun n => kb.announce (struck ++ strokes.take n)).flatten := by
  induction strokes generalizing current struck with
  | nil => rfl
  | cons stroke strokes ih =>
      have hheld' (k : Nibble) : k ∈ (current.strike now stroke).1.held ↔
          k ∈ kb.held ∨ (struck ++ [stroke]).any (kb.layout.presses k) := by
        rw [mem_held, strike_since, hlayout, List.any_append, List.any_cons, List.any_nil,
          Bool.or_false, Bool.or_eq_true, ← or_assoc, ← hheld, mem_held]
        cases kb.layout.presses k stroke <;> simp
      rw [strikes_cons, strike_announces hlayout hheld,
        ih ((strike_layout stroke).trans hlayout) hheld', List.mapIdx_cons, List.flatten_cons]
      simp

/-- What a poll reports of the strokes, in their order, and then of the keys that are overdue. -/
theorem poll_reports (strokes : List Keystroke) :
    (kb.poll now strokes).2 =
      (strokes.mapIdx fun n => kb.announce (strokes.take n)).flatten ++
        ((List.finRange 16).filter ((kb.strikes now strokes).1.overdue now)).map fun k =>
          .up (UInt8.ofNat k.val) := by
  have hheld (k : Nibble) : k ∈ kb.held ↔
      k ∈ kb.held ∨ ([] : List Keystroke).any (kb.layout.presses k) := by simp
  have hstruck : (kb.strikes now strokes).2 = _ := strikes_announce rfl hheld strokes
  simp only [List.nil_append] at hstruck
  rw [poll_eq, hstruck]
  rfl

end Announce

theorem attend_append (kb : Keyboard) (earlier : List Batch) (last : Batch) :
    kb.attend (earlier ++ [last]) =
      (((kb.attend earlier).1.poll last.time last.strokes).1,
        (kb.attend earlier).2 ++ ((kb.attend earlier).1.poll last.time last.strokes).2) := by
  induction earlier generalizing kb with
  | nil => simp [attend]
  | cons b earlier ih => simp [attend, ih, List.append_assoc]

theorem attend_layout (kb : Keyboard) (batches : List Batch) :
    (kb.attend batches).1.layout = kb.layout := by
  induction batches generalizing kb with
  | nil => rfl
  | cons b batches ih => exact (ih _).trans (poll_layout b.strokes)

theorem Recalls.attend {kb : Keyboard} {past batches : List Batch} {now later : Nat}
    (h : kb.Recalls past now) (hsorted : batches.Pairwise fun b s => b.time ≤ s.time)
    (hnow : ∀ b ∈ batches, now ≤ b.time) (hlater : ∀ b ∈ batches, b.time ≤ later)
    (hle : now ≤ later) :
    ∃ time ≤ later, (kb.attend batches).1.Recalls (past ++ batches) time := by
  induction batches generalizing kb past now with
  | nil =>
      rw [List.append_nil]
      exact ⟨now, hle, h⟩
  | cons b batches ih =>
      obtain ⟨hfirst, hsorted⟩ := List.pairwise_cons.1 hsorted
      have hread := h.poll (hnow b List.mem_cons_self)
      obtain ⟨time, htime, hrest⟩ := ih hread hsorted hfirst
        (fun s hs => hlater s (List.mem_cons_of_mem _ hs)) (hlater b List.mem_cons_self)
      refine ⟨time, htime, ?_⟩
      rw [List.append_assoc] at hrest
      exact hrest

theorem takeTurns_attend (layout : Layout) (batches : List Batch) (k : Nibble) :
    TakeTurns k false ((ofLayout layout).attend batches).2 := by
  have hturns := (Reports.attend (ofLayout layout) batches).turns k
  rw [ofLayout_since] at hturns
  exact hturns

/-- A new keyboard, polled at times that do not go back. The ups and downs of every key take turns, a
down first. After a poll the keyboard holds the keys whose latest press is less than the hold time old.
The poll itself reports, stroke by stroke, a wish to stop and the press of a key that is not held, and
then the ups, the lowest first, of those that are held and have not been pressed for the hold time. -/
theorem attend_ofLayout (layout : Layout) (earlier : List Batch) (last : Batch)
    (hsorted : (earlier ++ [last]).Pairwise fun b s => b.time ≤ s.time) :
    let before := (ofLayout layout).attend earlier
    let after := (ofLayout layout).attend (earlier ++ [last])
    (∀ k, TakeTurns k false after.2) ∧
      (∀ k, k ∈ after.1.held ↔ layout.Holds (earlier ++ [last]) last.time k) ∧
      ∃ released : List Nibble, released.Pairwise (· < ·) ∧
        (∀ k, k ∈ released ↔
          (k ∈ before.1.held ∨ last.strokes.any (layout.presses k)) ∧
            ∃ time, layout.LastPressed (earlier ++ [last]) k time ∧
              holdTime ≤ last.time - time) ∧
        after.2 =
          before.2 ++ (last.strokes.mapIdx fun n => before.1.announce (last.strokes.take n)).flatten
            ++ released.map fun k => .up (UInt8.ofNat k.val) := by
  obtain ⟨hearlier, -, hbefore⟩ := List.pairwise_append.1 hsorted
  have hle : ∀ b ∈ earlier, b.time ≤ last.time := fun b hb => hbefore b hb last List.mem_cons_self
  obtain ⟨now, hnow, hrecalls⟩ := (Recalls.ofLayout layout 0).attend hearlier
    (fun b _ => Nat.zero_le b.time) hle (Nat.zero_le last.time)
  have hlayout : ((ofLayout layout).attend earlier).1.layout = layout := attend_layout _ _
  intro before after
  have hafter : after = (_, _) := attend_append (ofLayout layout) earlier last
  refine ⟨takeTurns_attend layout _, ?_, (List.finRange 16).filter
    ((before.1.strikes last.time last.strokes).1.overdue last.time), ?_, ?_, ?_⟩
  · intro k
    have hheld := (hrecalls.poll hnow).mem_held_iff k
    rw [poll_layout, hlayout] at hheld
    rw [hafter]
    exact hheld
  · exact (List.pairwise_lt_finRange 16).filter _
  · intro k
    have hoverdue := hrecalls.overdue_iff hnow k
    rw [hlayout] at hoverdue
    rw [List.mem_filter]
    simp only [List.mem_finRange, true_and]
    exact hoverdue
  · rw [hafter, List.append_assoc, ← poll_reports]

/-- Two keys struck again and again, one of them exactly the hold time before the last poll, in which
a wish to stop comes between. -/
def typing : List Batch :=
  [⟨0, [⟨.char 'q', false⟩]⟩, ⟨100000000, [⟨.char 'Q', false⟩, ⟨.char 'w', false⟩]⟩]

def stopping : Batch := ⟨250000000, [⟨.char 'w', false⟩, ⟨.escape, false⟩, ⟨.char 'e', false⟩]⟩

theorem typing_attended :
    ((typing ++ [stopping]).Pairwise fun b s => b.time ≤ s.time) ∧
      ((ofLayout .conventional).attend (typing ++ [stopping])).2 =
        [.down 4, .down 5, .quit, .down 6, .up 4] ∧
      TakeTurns 4 false ((ofLayout .conventional).attend (typing ++ [stopping])).2 ∧
      Layout.conventional.Holds (typing ++ [stopping]) 250000000 5 ∧
      ¬ Layout.conventional.Holds (typing ++ [stopping]) 250000000 4 := by
  have hsorted : (typing ++ [stopping]).Pairwise fun b s => b.time ≤ s.time := by decide
  obtain ⟨hturns, hheld, -⟩ := attend_ofLayout .conventional typing stopping hsorted
  refine ⟨hsorted, by decide +kernel, hturns 4, (hheld 5).1 ?_, mt (hheld 4).2 ?_⟩
  · decide +kernel
  · decide +kernel

end Keyboard

end Chip8Console
