import Chip8Console.Proofs.Machine.Bounds

/-!
# The call stack as a list

The slots from one up to the depth hold the return addresses, the oldest first. Pushing adds one at the
end of that list and popping takes the last one off. What the other slots hold makes no difference to
either, so two stacks that agree on the list go on to agree.
-/

namespace Chip8Console

namespace CallStack

theorem length_toList (s : CallStack) : s.toList.length = s.depth.val := by
  have := s.depth.isLt
  rw [toList, List.length_take, List.length_drop, Vector.length_toList]
  omega

theorem getElem_toList (s : CallStack) {n : Nat} (hn : n < s.toList.length) (hslot : n + 1 < 16) :
    s.toList[n] = s.slots[(⟨n + 1, hslot⟩ : Nibble)] := by
  simp only [toList, List.getElem_take, List.getElem_drop, Vector.getElem_toList, Nat.add_comm 1,
    getElem_nibble_mk]

theorem toList_push {s t : CallStack} {address : UInt16} (h : s.push? address = some t) :
    t.toList = s.toList ++ [address] := by
  obtain ⟨hdepth, hslots⟩ := push?_eq_some h
  have hlt := t.depth.isLt
  apply List.ext_getElem
  · rw [List.length_append, length_toList, length_toList, hdepth]
    rfl
  · intro n hn hn'
    rw [length_toList] at hn
    rw [getElem_toList t _ (by omega), hslots]
    by_cases htop : n = s.depth.val
    · rw [if_pos (congrArg (· + 1) htop), List.getElem_append_right (by rw [length_toList]; omega)]
      simp
    · have hbelow : n < s.toList.length := by
        rw [length_toList]
        omega
      rw [if_neg (by simpa using htop), List.getElem_append_left hbelow, getElem_toList]

theorem toList_pop {s t : CallStack} {address : UInt16} (h : s.pop? = some (address, t)) :
    s.toList = t.toList ++ [address] := by
  obtain ⟨hdepth, rfl, hslots, hshallower⟩ := pop?_eq_some h
  have hlt := s.depth.isLt
  apply List.ext_getElem
  · rw [List.length_append, length_toList, length_toList, hshallower]
    show s.depth.val = s.depth.val - 1 + 1
    omega
  · intro n hn hn'
    rw [length_toList] at hn
    rw [getElem_toList s _ (by omega)]
    by_cases htop : n = t.depth.val
    · have hindex : (⟨n + 1, by omega⟩ : Nibble) = s.depth := Fin.ext (by simp only; omega)
      rw [List.getElem_append_right (by rw [length_toList]; omega), hindex]
      simp
    · have hbelow : n < t.toList.length := by
        rw [length_toList]
        omega
      rw [List.getElem_append_left hbelow, getElem_toList t hbelow (by omega), hslots]

/-- The same return addresses, in slots that may differ where none is. -/
structure SameLevels (s t : CallStack) : Prop where
  depth : t.depth = s.depth
  slots : ∀ k : Nibble, 1 ≤ k.val → k.val ≤ s.depth.val → t.slots[k] = s.slots[k]

namespace SameLevels

variable {s t : CallStack}

/-- Both stacks are full, or both grow by the same address. -/
theorem push (h : s.SameLevels t) (address : UInt16) :
    (s.push? address = none ∧ t.push? address = none) ∨
      ∃ s' t', s.push? address = some s' ∧ t.push? address = some t' ∧ s'.SameLevels t' := by
  cases hs : s.push? address with
  | none =>
      rw [push?_eq_none_iff] at hs
      exact .inl ⟨rfl, (push?_eq_none_iff t address).2 (h.depth ▸ hs)⟩
  | some s' =>
      cases ht : t.push? address with
      | none =>
          rw [push?_eq_none_iff, h.depth, ← push?_eq_none_iff s address, hs] at ht
          cases ht
      | some t' =>
          obtain ⟨hdepth, hslots⟩ := push?_eq_some hs
          obtain ⟨hdepth', hslots'⟩ := push?_eq_some ht
          refine .inr ⟨s', t', rfl, rfl, Fin.ext (by rw [hdepth, hdepth', h.depth]), ?_⟩
          intro k hlow hhigh
          rw [hslots, hslots', h.depth]
          split
          · rfl
          · exact h.slots k hlow (by omega)

/-- Both stacks are empty, or both give the same address. -/
theorem pop (h : s.SameLevels t) :
    (s.pop? = none ∧ t.pop? = none) ∨
      ∃ address s' t', s.pop? = some (address, s') ∧ t.pop? = some (address, t') ∧
        s'.SameLevels t' := by
  cases hs : s.pop? with
  | none =>
      rw [pop?_eq_none_iff] at hs
      exact .inl ⟨rfl, (pop?_eq_none_iff t).2 (h.depth ▸ hs)⟩
  | some popped =>
      cases ht : t.pop? with
      | none =>
          rw [pop?_eq_none_iff, h.depth, ← pop?_eq_none_iff s, hs] at ht
          cases ht
      | some popped' =>
          obtain ⟨hdepth, haddress, hslots, hshallower⟩ := pop?_eq_some hs
          obtain ⟨-, haddress', hslots', hshallower'⟩ := pop?_eq_some ht
          have hsame : popped'.1 = popped.1 := by
            rw [haddress, haddress', h.depth]
            exact h.slots s.depth (by omega) (Nat.le_refl _)
          refine .inr ⟨popped.1, popped.2, popped'.2, rfl, hsame ▸ rfl, ?_, ?_⟩
          · exact Fin.ext (by rw [hshallower, hshallower', h.depth])
          · intro k hlow hhigh
            rw [hslots, hslots']
            exact h.slots k hlow (by omega)

end SameLevels

end CallStack

end Chip8Console
