import Chip8Console.Proofs.Host.Lockstep

/-!
# A run with a higher limit

Runs from the same host with limits `n` and `n + more` do the same until the first reaches its limit. The
first then ends the tone and takes leave, while the second goes on from the same host with its next cycle.
-/

namespace Chip8Console.Host

/-- The same host in two runs, of which the second has the higher limit. -/
def longerStep (rig : Rig) (n more : Nat) : Lockstep where
  hosts := Eq
  cycles c c' := c.limit = some n ∧ c.done < n ∧ c' = { c with limit := some (n + more) }
  polls := Eq
  limits h stage := ∃ seam : Host, seam.machine.stale = false ∧
    seam.finish rig .cycleLimit = .ended .cycleLimit h ∧ stage = seam.beginCycle rig (some (n + more)) n
  escapes _ := False

theorem beginCycle_longer (rig : Rig) {h : Host} (hstale : h.machine.stale = false) (more : Nat)
    {n done : Nat} (hdone : done ≤ n) :
    (h.beginCycle rig (some n) done).InStep (longerStep rig n more)
      (h.beginCycle rig (some (n + more)) done) := by
  by_cases hlimit : n = done
  · subst hlimit
    obtain ⟨first, hfinish⟩ := h.exists_finish rig .cycleLimit
    have hover : h.beginCycle rig (some n) n = .ended .cycleLimit first := by
      simp [beginCycle, hfinish]
    rw [hover]
    exact .limit ⟨h, hstale, hfinish, rfl⟩
  · have hbegin (limit : Nat) (hlimit : done < limit) :
        h.beginCycle rig (some limit) done = .running (.top ⟨some limit, done, h.clock⟩) h := by
      simp [beginCycle, Nat.not_le.2 hlimit]
    rw [hbegin n (by omega), hbegin (n + more) (by omega)]
    exact .top ⟨rfl, by show done < n; omega, rfl⟩ rfl

theorem kept_longerStep (rig : Rig) (n more : Nat) : (longerStep rig n more).Kept rig rig where
  poll hk hpoll := by
    cases hk
    cases hpoll
    exact ⟨rfl, rfl⟩
  step hk := by
    cases hk
    exact .inr ⟨rfl, rfl⟩
  escape := Course.kept_throughout (fun _ hh => hh) (fun hh _ => hh.elim) (fun hh _ => hh) fun hh _ => hh
  escape_poll _ hh := hh
  waiting hk := by rw [hk]
  registers hk := by rw [hk]
  await _ hk := by cases hk; rfl
  abandon hk := by cases hk; rfl
  catchUp {h k} hk := by
    cases hk
    cases h.catchUp rig with
    | none => exact .none
    | some next => exact .some rfl
  redraw hk := by
    cases hk
    exact ⟨rfl, rfl⟩
  rest hk := by cases hk; rfl
  finish hk hfinish hfinish' := by
    cases hk
    exact (Stage.ended.inj (hfinish.symm.trans hfinish')).2
  turn {h k c c'} hk hcycle hstale := by
    cases hk
    obtain ⟨hlimit, hdone, rfl⟩ := hcycle
    have hslept : (h.elapse (rig.cycle - (h.clock - c.started))).machine.stale = false := hstale
    rw [hlimit]
    exact beginCycle_longer rig hslept more hdone

theorem start_longer (rig : Rig) (h : Host) (n more : Nat) :
    ((Call.run (some n)).start rig h).InStep (longerStep rig n more)
      ((Call.run (some (n + more))).start rig h) := by
  simp only [Call.start]
  split
  · exact (kept_longerStep rig n more).finished rfl (by simp)
  · next drawn hpresent => exact beginCycle_longer rig (stale_of_present hpresent) more (Nat.zero_le n)

/-- The run with the higher limit comes past the host at which the other one has ended. -/
theorem perform_longer {rig : Rig} {entry first : Host} {n : Nat} {polls left : List Poll}
    (hfirst : (Call.run (some n)).perform rig entry polls = (.ended .cycleLimit first, left)) (more : Nat) :
    ∃ seam : Host, seam.machine.stale = false ∧
      seam.finish rig .cycleLimit = .ended .cycleLimit first ∧
      (Call.run (some (n + more))).perform rig entry polls =
        (seam.beginCycle rig (some (n + more)) n).feed rig left := by
  have hpolls : List.Forall₂ Eq polls polls := List.forall₂_eq_eq_eq ▸ rfl
  rcases (kept_longerStep rig n more).feed hpolls (start_longer rig entry n more) with
    hescapes | ⟨next, left', hlonger, hnext, hleft⟩
  · exact absurd hescapes (Lockstep.not_away fun _ => id)
  · rw [← Call.perform, hfirst] at hnext hleft
    cases hnext with
    | ended hending hhost => exact absurd rfl hending
    | limit hlimit =>
        obtain ⟨seam, hstale, hfinish, rfl⟩ := hlimit
        have hsame : left = left' := by simpa [longerStep, List.forall₂_eq_eq_eq] using hleft
        rw [hsame]
        exact ⟨seam, hstale, hfinish, hlonger⟩

end Chip8Console.Host
