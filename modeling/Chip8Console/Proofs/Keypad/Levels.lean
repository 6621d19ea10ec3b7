import Chip8Console.Keypad.Keys
import Mathlib.Data.List.Chain

/-!
# Levels and edges of a key

Among the events that a host hears, those that name one key are its edges: true where it goes down and
false where it goes up. Its level after them is the last of them, or what it was before if there are
none. Edges take turns from a level when no two neighbours are the same, the level before them included;
so edges that take turns from a key that is up go down, up, down, up.
-/

namespace Chip8Console

def KeyEvent.edge? (k : Nibble) : KeyEvent → Option Bool
  | down key => if Keys.named key = k then some true else none
  | up key => if Keys.named key = k then some false else none
  | quit => none

def edges (k : Nibble) (es : List KeyEvent) : List Bool := es.filterMap (KeyEvent.edge? k)

def levelAfter (k : Nibble) (level : Bool) (es : List KeyEvent) : Bool :=
  (edges k es).getLastD level

/-- Whether the edges of a key take turns, when it has this level before them. -/
def TakeTurns (k : Nibble) (level : Bool) (es : List KeyEvent) : Prop :=
  (level :: edges k es).IsChain (· ≠ ·)

section Append

variable {k : Nibble} {level : Bool} {es fs : List KeyEvent}

theorem edges_append : edges k (es ++ fs) = edges k es ++ edges k fs := List.filterMap_append

theorem edges_cons {e : KeyEvent} : edges k (e :: es) = edges k [e] ++ edges k es :=
  List.filterMap_append (l := [e])

theorem levelAfter_append :
    levelAfter k level (es ++ fs) = levelAfter k (levelAfter k level es) fs := by
  unfold levelAfter
  rw [edges_append]
  simp only [List.getLastD_eq_getLast?, List.getLast?_append]
  cases (edges k fs).getLast? <;> rfl

/-- Events after which a key is down leave it down, too, if it was down before them. -/
theorem levelAfter_mono {level' : Bool} (hle : level → level') (h : levelAfter k level es) :
    levelAfter k level' es := by
  unfold levelAfter at h ⊢
  rw [List.getLastD_eq_getLast?] at h ⊢
  cases hlast : (edges k es).getLast? with
  | none =>
      rw [hlast] at h
      exact hle h
  | some edge =>
      rw [hlast] at h
      exact h

theorem takeTurns_nil : TakeTurns k level [] := List.isChain_singleton level

theorem TakeTurns.append (hes : TakeTurns k level es)
    (hfs : TakeTurns k (levelAfter k level es) fs) : TakeTurns k level (es ++ fs) := by
  unfold TakeTurns at hes hfs ⊢
  rw [edges_append, ← List.cons_append, List.isChain_append]
  rw [List.isChain_cons] at hfs
  refine ⟨hes, hfs.2, ?_⟩
  intro last hlast
  rw [List.getLast?_cons, Option.mem_some_iff] at hlast
  subst hlast
  rw [← List.getLastD_eq_getLast?]
  exact hfs.1

end Append

section Single

variable {k j : Nibble} {level : Bool}

theorem edges_down : edges k [.down (UInt8.ofNat j.val)] = if j = k then [true] else [] := by
  simp only [edges, List.filterMap_cons, KeyEvent.edge?, Keys.named_ofNat]
  split <;> simp_all

theorem edges_up : edges k [.up (UInt8.ofNat j.val)] = if j = k then [false] else [] := by
  simp only [edges, List.filterMap_cons, KeyEvent.edge?, Keys.named_ofNat]
  split <;> simp_all

theorem levelAfter_down {key : UInt8} :
    levelAfter k level [.down key] = (decide (Keys.named key = k) || level) := by
  by_cases h : Keys.named key = k <;> simp [levelAfter, edges, KeyEvent.edge?, h]

theorem levelAfter_up {key : UInt8} :
    levelAfter k level [.up key] = (decide (Keys.named key ≠ k) && level) := by
  by_cases h : Keys.named key = k <;> simp [levelAfter, edges, KeyEvent.edge?, h]

theorem edges_ups_of_not_mem {keys : List Nibble} (h : k ∉ keys) :
    edges k (keys.map fun j => .up (UInt8.ofNat j.val)) = [] := by
  induction keys with
  | nil => rfl
  | cons j keys ih =>
      rw [List.mem_cons, not_or] at h
      rw [List.map_cons, edges_cons, edges_up, if_neg (Ne.symm h.1), ih h.2]
      rfl

/-- A key has one edge among the keys that go up, if it is one of them and none comes twice. -/
theorem edges_ups_of_mem {keys : List Nibble} (hnodup : keys.Nodup) (h : k ∈ keys) :
    edges k (keys.map fun j => .up (UInt8.ofNat j.val)) = [false] := by
  induction keys with
  | nil => cases h
  | cons j keys ih =>
      obtain ⟨hnew, hnodup⟩ := List.nodup_cons.1 hnodup
      rw [List.map_cons, edges_cons, edges_up]
      by_cases hkey : j = k
      · subst hkey
        rw [if_pos rfl, edges_ups_of_not_mem hnew]
        rfl
      · rw [if_neg hkey, ih hnodup ((List.mem_cons.1 h).resolve_left (Ne.symm hkey))]
        rfl

theorem takeTurns_of_edges_nil {es : List KeyEvent} (h : edges k es = []) : TakeTurns k level es := by
  rw [TakeTurns, h]
  exact List.isChain_singleton level

theorem takeTurns_of_edges_single {es : List KeyEvent} (edge : Bool) (h : edges k es = [edge])
    (hedge : level ≠ edge) : TakeTurns k level es := by
  rw [TakeTurns, h]
  exact .cons_cons hedge (List.isChain_singleton edge)

end Single

end Chip8Console
