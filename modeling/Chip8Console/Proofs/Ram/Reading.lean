import Chip8Console.Ram.Image

/-!
# Reading a source to its end

Whatever its pieces, a source hands out its data in order and leaves none out, and an empty answer comes
only when nothing is left. So what is read does not depend on the pieces: `readUpTo`, `drain` and
`Image.ofSource` are functions of the data and of the offset at which the source breaks. Reads are made
at every offset up to the limit, or up to the end of the data and there too; the source fails if it breaks
at one of these.
-/

namespace Chip8Console

namespace ByteSource

/-- The source when it has handed out some more of its data. -/
def skip (s : ByteSource) (n : Nat) : ByteSource :=
  { s with rest := s.rest.drop n, given := s.given + n }

/-- Whether some read fails of those made by the time that so many more bytes have come. -/
def failsWithin (s : ByteSource) (n : Nat) : Bool := s.breaksAt.any (· ≤ s.given + n)

theorem broken_eq_failsWithin (s : ByteSource) : s.broken = s.failsWithin 0 := by
  unfold broken failsWithin
  cases s.breaksAt <;> rfl

theorem failsWithin_mono {s : ByteSource} {m n : Nat} (hmn : m ≤ n) (h : s.failsWithin m) :
    s.failsWithin n := by
  obtain ⟨offset, hbreaks, hle⟩ := (Option.any_eq_true _ _).1 h
  have hle : offset ≤ s.given + m := of_decide_eq_true hle
  exact (Option.any_eq_true _ _).2 ⟨offset, hbreaks, decide_eq_true (by omega)⟩

theorem failsWithin_skip (s : ByteSource) (m n : Nat) :
    (s.skip m).failsWithin n = s.failsWithin (m + n) := by
  simp only [failsWithin, skip, Nat.add_assoc]

theorem skip_skip (s : ByteSource) (m n : Nat) : (s.skip m).skip n = s.skip (m + n) := by
  simp only [skip, List.drop_drop, Nat.add_assoc]

/-- A portion is not empty, no larger than what is wanted, and does not cross the offset at which the
source breaks. -/
theorem portion_bounds {s : ByteSource} (hsound : s.failsWithin 0 = false) {want : Nat} (hwant : 0 < want) :
    0 < s.portion want ∧ s.portion want ≤ want ∧ s.failsWithin (s.portion want - 1) = false := by
  unfold failsWithin at hsound ⊢
  unfold portion
  cases hbreaks : s.breaksAt with
  | none =>
      dsimp only
      exact ⟨by omega, by omega, rfl⟩
  | some offset =>
      rw [hbreaks] at hsound
      have hlt : s.given < offset := by simpa using hsound
      dsimp only
      refine ⟨by omega, by omega, ?_⟩
      simp only [Option.any_some, decide_eq_false_iff_not]
      omega

/-- A read fails, or it hands out some of the data that come before the source breaks, and none only if
there are none. -/
theorem read_cases (s : ByteSource) {want : Nat} (hwant : 0 < want) :
    (s.failsWithin 0 ∧ s.read want = .error s.reason) ∨
      ∃ n, n ≤ want ∧ n ≤ s.rest.length ∧ (n = 0 → s.rest = []) ∧ s.failsWithin (n - 1) = false ∧
        s.read want = .ok (s.rest.take n, s.skip n) := by
  by_cases hfails : s.failsWithin 0
  · left
    rw [read, if_pos ((broken_eq_failsWithin s).trans hfails)]
    exact ⟨hfails, rfl⟩
  · right
    obtain ⟨hpos, hle, hsound⟩ := portion_bounds (by simpa using hfails) hwant
    refine ⟨min (s.portion want) s.rest.length, by omega, by omega, fun hzero => ?_, ?_, ?_⟩
    · exact List.length_eq_zero_iff.1 (by omega)
    · rw [Bool.eq_false_iff] at hsound ⊢
      exact mt (failsWithin_mono (by omega)) hsound
    · rw [read, if_neg (by rwa [broken_eq_failsWithin])]
      simp [skip, List.take_eq_take_iff, List.drop_eq_drop_iff]

/-- Reading goes on after an answer that is not empty, with what is left of the limit. -/
theorem readUpTo_of_read {s t : ByteSource} {limit : Nat} {b : UInt8} {chunk : List UInt8}
    (hread : s.read (limit + 1) = .ok (b :: chunk, t)) :
    s.readUpTo (limit + 1) =
      (t.readUpTo (limit - chunk.length)).map fun more => (b :: chunk ++ more.1, more.2) := by
  rw [readUpTo, if_neg (Nat.succ_ne_zero limit), hread]
  dsimp only
  rw [Nat.add_sub_add_right]
  cases t.readUpTo (limit - chunk.length) <;> rfl

/-- What reading up to a limit gives. The last read is made before the limit is reached, or at the end of
the data. -/
theorem readUpTo_eq (s : ByteSource) (limit : Nat) :
    s.readUpTo (limit + 1) =
      if s.failsWithin (min limit s.rest.length) then .error s.reason
      else .ok (s.rest.take (limit + 1), s.skip (min (limit + 1) s.rest.length)) := by
  induction limit using Nat.strongRecOn generalizing s with
  | ind limit ih =>
    obtain ⟨hfails, hread⟩ | ⟨n, hle, hlen, hnil, hsound, hread⟩ := s.read_cases (Nat.succ_pos limit)
    · rw [readUpTo, if_neg (Nat.succ_ne_zero limit), hread,
        if_pos (failsWithin_mono (Nat.zero_le _) hfails)]
    cases htake : s.rest.take n with
    | nil =>
        have hrest : s.rest = [] := (List.take_eq_nil_iff.1 htake).elim hnil id
        have hzero : n = 0 := by simpa [hrest] using hlen
        rw [hzero] at hread hsound
        rw [readUpTo, if_neg (Nat.succ_ne_zero limit), hread]
        simp [hrest, hsound]
    | cons b chunk =>
        have hcount : n = chunk.length + 1 := by
          rw [← List.length_cons (a := b), ← htake, List.length_take, Nat.min_eq_left hlen]
        rw [htake] at hread
        rw [readUpTo_of_read hread]
        by_cases hfull : limit = chunk.length
        · have hlast : min limit s.rest.length = n - 1 := by omega
          have hall : min (limit + 1) s.rest.length = n := by omega
          rw [hfull, Nat.sub_self, readUpTo, if_pos rfl, ← hfull, hlast, hsound, hall]
          simp [Except.map, hfull, ← hcount, htake]
        · obtain ⟨left, hleft⟩ : ∃ left, limit - chunk.length = left + 1 := ⟨limit - n, by omega⟩
          have hrest : (s.skip n).rest.length = s.rest.length - n := List.length_drop
          have hlast : n + min left (s.rest.length - n) = min limit s.rest.length := by omega
          have hall : n + min (left + 1) (s.rest.length - n) = min (limit + 1) s.rest.length := by omega
          rw [hleft, ih left (by omega), hrest, failsWithin_skip, hlast, skip_skip, hall]
          by_cases hfails : s.failsWithin (min limit s.rest.length)
          · rw [if_pos hfails, if_pos hfails]
            rfl
          · have hsplit : limit + 1 = n + (left + 1) := by omega
            rw [if_neg hfails, if_neg hfails, hsplit, List.take_add (l := s.rest), htake]
            rfl

/-- Draining reads to the end of the data. -/
theorem drain_eq (s : ByteSource) (count : Nat) :
    s.drain count =
      if s.failsWithin s.rest.length then .error s.reason else .ok (count + s.rest.length) := by
  fun_induction drain s count with
  | case1 s count e hread =>
      obtain ⟨hfails, herror⟩ | ⟨n, -, -, -, -, hok⟩ := s.read_cases (show 0 < drainSize by decide)
      · rw [herror] at hread
        cases hread
        rw [if_pos (failsWithin_mono (Nat.zero_le _) hfails)]
      · rw [hok] at hread
        cases hread
  | case2 s count t hread =>
      obtain ⟨-, herror⟩ | ⟨n, -, hlen, hnil, hsound, hok⟩ := s.read_cases (show 0 < drainSize by decide)
      · rw [herror] at hread
        cases hread
      · simp only [hok, Except.ok.injEq, Prod.mk.injEq, List.take_eq_nil_iff] at hread
        have hrest : s.rest = [] := hread.1.elim hnil id
        have hzero : n = 0 := by simpa [hrest] using hlen
        rw [hzero] at hsound
        simp [hrest, hsound]
  | case3 s count b chunk t hread ih =>
      obtain ⟨-, herror⟩ | ⟨n, -, hlen, -, -, hok⟩ := s.read_cases (show 0 < drainSize by decide)
      · rw [herror] at hread
        cases hread
      · simp only [hok, Except.ok.injEq, Prod.mk.injEq] at hread
        obtain ⟨htake, rfl⟩ := hread
        have hcount : n = chunk.length + 1 := by
          rw [← List.length_cons (a := b), ← htake, List.length_take, Nat.min_eq_left hlen]
        have hrest : (s.skip n).rest.length = s.rest.length - n := List.length_drop
        have hlast : n + (s.rest.length - n) = s.rest.length := by omega
        rw [ih, failsWithin_skip, hrest, hlast, ← hcount, Nat.add_assoc, hlast]
        rfl

end ByteSource

/-- An image is what its source holds, unless reading fails or there is too much of it. -/
theorem Image.ofSource_eq (source : ByteSource) :
    ofSource source =
      if source.failsWithin source.rest.length then .error (.unreadable source.reason)
      else if maxBytes < source.rest.length then .error (.tooLarge source.rest.length maxBytes)
      else .ok source.rest := by
  rw [ofSource, ByteSource.readUpTo_eq]
  by_cases hlarge : maxBytes < source.rest.length
  · have hread : min (maxBytes + 1) source.rest.length = maxBytes + 1 := by omega
    have hkept : (source.rest.take (maxBytes + 1)).length = maxBytes + 1 := by
      rw [List.length_take, hread]
    have hleft : (source.skip (maxBytes + 1)).rest.length = source.rest.length - (maxBytes + 1) :=
      List.length_drop
    have hall : maxBytes + 1 + (source.rest.length - (maxBytes + 1)) = source.rest.length := by omega
    by_cases hfirst : source.failsWithin (min maxBytes source.rest.length)
    · rw [if_pos hfirst, if_pos (ByteSource.failsWithin_mono (by omega) hfirst)]
    · rw [if_neg hfirst, hread]
      dsimp only
      rw [hkept, if_pos (Nat.lt_succ_self maxBytes), ByteSource.drain_eq, hleft,
        ByteSource.failsWithin_skip, hall, if_pos hlarge]
      by_cases hfails : source.failsWithin source.rest.length
      · rw [if_pos hfails, if_pos hfails]
        rfl
      · rw [if_neg hfails, if_neg hfails]
  · have hread : min (maxBytes + 1) source.rest.length = source.rest.length := by omega
    have hlast : min maxBytes source.rest.length = source.rest.length := by omega
    rw [hread, hlast, if_neg hlarge]
    by_cases hfails : source.failsWithin source.rest.length
    · rw [if_pos hfails, if_pos hfails]
    · rw [if_neg hfails, if_neg hfails]
      dsimp only
      rw [List.take_of_length_le (by omega), if_neg hlarge]

/-- The size reported of an image that is too large is its size. -/
theorem Image.size_of_tooLarge {source : ByteSource} {size max : Nat}
    (h : ofSource source = .error (.tooLarge size max)) : size = source.rest.length := by
  rw [ofSource_eq] at h
  split at h
  · cases h
  split at h
  · cases h
    rfl
  · cases h

end Chip8Console
