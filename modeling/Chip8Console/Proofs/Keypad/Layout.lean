import Chip8Console.Keypad.Layout
import Mathlib.Data.Fintype.Card
import Mathlib.Data.List.Nodup

/-!
# Looking up keys and characters

No character and no key is in two pairs of a layout, so a pair is found by either of its parts. There are as
many pairs as keys, so every key is in one.

Characters are looked up in lower case, but a layout keeps them as they are given. So the key of a character
has that character, in lower case; but the character of a key leads back to the key only if it is not a
capital letter.
-/

namespace Chip8Console

theorem Keys.ofNat_named {b : UInt8} (h : b.toNat < 16) : UInt8.ofNat (named b).val = b := by
  show UInt8.ofNat (b.toNat % 16) = b
  rw [Nat.mod_eq_of_lt h, UInt8.ofNat_toNat]

namespace Layout

/-- Going to lower case changes capital letters only. -/
theorem toLower_eq_self_iff {c : Char} : c.toLower = c ↔ c.isUpper = false := by
  have hupper : c.isUpper ↔ c.val ≥ 'A'.val ∧ c.val ≤ 'Z'.val := decide_eq_true_iff
  rw [← Bool.not_eq_true, hupper]
  unfold Char.toLower
  split
  · next hcapital =>
    refine iff_of_false (fun hsame => ?_) (not_not_intro hcapital)
    have hval : c.val + 32 = c.val := congrArg Char.val hsame
    simp at hval
  · next hother => exact iff_of_true rfl hother

/-- If no two elements agree in what they are looked up by, an element is found by that. -/
theorem find?_eq_some_iff_of_nodup {α β : Type} [DecidableEq β] {f : α → β} {l : List α}
    (hnodup : (l.map f).Nodup) {a : α} {b : β} :
    l.find? (fun x => f x == b) = some a ↔ a ∈ l ∧ f a = b := by
  have hfound : ∀ {x : α}, l.find? (fun x => f x == b) = some x → x ∈ l ∧ f x = b := fun {x} hfind =>
    ⟨List.mem_of_find?_eq_some hfind, by simpa using List.find?_some hfind⟩
  refine ⟨hfound, ?_⟩
  rintro ⟨hmem, hkey⟩
  obtain ⟨other, hfind⟩ : ∃ x, l.find? (fun x => f x == b) = some x :=
    Option.isSome_iff_exists.1 (List.find?_isSome.2 ⟨a, hmem, by simpa using hkey⟩)
  obtain ⟨hother, hkeyOther⟩ := hfound hfind
  rwa [List.inj_on_of_nodup_map hnodup hother hmem (hkeyOther.trans hkey.symm)] at hfind

variable {layout : Layout} {pairs : Vector (Char × UInt8) 16} {c : Char} {k : Nibble}

theorem keyOf?_eq_some_iff : layout.keyOf? c = some k ↔ (c.toLower, k) ∈ layout.pairs.toList := by
  rw [keyOf?, Option.map_eq_some_iff]
  simp only [find?_eq_some_iff_of_nodup layout.chars_nodup]
  constructor
  · rintro ⟨pair, ⟨hmem, hchar⟩, rfl⟩
    rwa [← hchar]
  · intro hmem
    exact ⟨_, ⟨hmem, rfl⟩, rfl⟩

theorem exists_mem_pairs (layout : Layout) (k : Nibble) : ∃ c, (c, k) ∈ layout.pairs.toList := by
  have hall : (layout.pairs.toList.map Prod.snd).toFinset = Finset.univ := by
    apply Finset.eq_univ_of_card
    rw [List.toFinset_card_of_nodup layout.keys_nodup, List.length_map, Vector.length_toList,
      Fintype.card_fin]
  have hmem : k ∈ layout.pairs.toList.map Prod.snd := List.mem_toFinset.1 (hall ▸ Finset.mem_univ k)
  obtain ⟨pair, hpair, rfl⟩ := List.mem_map.1 hmem
  exact ⟨pair.1, hpair⟩

theorem charOf_eq_iff : layout.charOf k = c ↔ (c, k) ∈ layout.pairs.toList := by
  have hof : ∀ {d : Char}, (d, k) ∈ layout.pairs.toList → layout.charOf k = d := fun hmem => by
    have hfind := (find?_eq_some_iff_of_nodup layout.keys_nodup).2 ⟨hmem, rfl⟩
    simp [charOf, hfind]
  refine ⟨?_, hof⟩
  rintro rfl
  obtain ⟨d, hmem⟩ := layout.exists_mem_pairs k
  rwa [hof hmem]

theorem keyOf?_charOf_iff :
    layout.keyOf? (layout.charOf k) = some k ↔ (layout.charOf k).isUpper = false := by
  rw [keyOf?_eq_some_iff, ← charOf_eq_iff, eq_comm, toLower_eq_self_iff]

theorem charOf_of_keyOf? (h : layout.keyOf? c = some k) : layout.charOf k = c.toLower :=
  charOf_eq_iff.2 (keyOf?_eq_some_iff.1 h)

/-- What is known of the pairs that a layout is made of. -/
theorem of_ofPairs? (h : ofPairs? pairs = some layout) :
    layout.pairs.toList = pairs.toList.map (fun pair => (pair.1, Keys.named pair.2)) ∧
      ∀ pair ∈ pairs.toList, pair.2 < 16 := by
  simp only [ofPairs?] at h
  split at h
  · next hkeys =>
    split at h
    · cases h
      exact ⟨Vector.toList_map, fun pair hpair => of_decide_eq_true (List.all_eq_true.1 hkeys pair hpair)⟩
    · cases h
  · cases h

/-- The pairs of a layout are those that it is made of. -/
theorem mem_pairs_iff (h : ofPairs? pairs = some layout) :
    (c, k) ∈ layout.pairs.toList ↔ (c, UInt8.ofNat k.val) ∈ pairs.toList := by
  obtain ⟨hpairs, hkeys⟩ := of_ofPairs? h
  rw [hpairs, List.mem_map]
  constructor
  · rintro ⟨⟨d, b⟩, hpair, hnamed⟩
    have hlow : b.toNat < 16 := UInt8.lt_iff_toNat_lt.1 (hkeys _ hpair)
    cases hnamed
    rwa [Keys.ofNat_named hlow]
  · intro hpair
    exact ⟨_, hpair, by rw [Keys.named_ofNat]⟩

/-- In a layout that has been made of some pairs, a key has the character of its pair, and a character that
has a key is in lower case the character of the key. The character of a key has that key just if it is no
capital letter. -/
theorem two_way_but_for_capitals (h : ofPairs? pairs = some layout) :
    (∀ k : Nibble, (layout.charOf k, UInt8.ofNat k.val) ∈ pairs.toList) ∧
      (∀ k : Nibble, layout.keyOf? (layout.charOf k) = some k ↔ (layout.charOf k).isUpper = false) ∧
      ∀ (c : Char) (k : Nibble), layout.keyOf? c = some k → layout.charOf k = c.toLower :=
  ⟨fun _ => (mem_pairs_iff h).1 (charOf_eq_iff.1 rfl), fun _ => keyOf?_charOf_iff,
    fun _ _ hkey => charOf_of_keyOf? hkey⟩

/-- The conventional pairs, but for a capital letter. -/
def capitalPairs : Vector (Char × UInt8) 16 :=
  #v[('X', 0x0), ('1', 0x1), ('2', 0x2), ('3', 0x3), ('q', 0x4), ('w', 0x5), ('e', 0x6), ('a', 0x7),
    ('s', 0x8), ('d', 0x9), ('z', 0xA), ('c', 0xB), ('4', 0xC), ('r', 0xD), ('f', 0xE), ('v', 0xF)]

theorem exists_of_capitalPairs :
    ∃ layout, ofPairs? capitalPairs = some layout ∧ layout.charOf 0 = 'X' ∧ layout.charOf 4 = 'q' := by
  obtain ⟨layout, hlayout⟩ : ∃ layout, ofPairs? capitalPairs = some layout :=
    Option.isSome_iff_exists.1 (by decide +kernel)
  have hchar : ∀ {k : Nibble} {c : Char}, (c, UInt8.ofNat k.val) ∈ capitalPairs.toList →
      layout.charOf k = c := fun hmem => charOf_eq_iff.2 ((mem_pairs_iff hlayout).2 hmem)
  exact ⟨layout, hlayout, hchar (by decide), hchar (by decide)⟩

theorem capitalPairs_two_way :
    ∃ layout, ofPairs? capitalPairs = some layout ∧ layout.charOf 0 = 'X' ∧
      layout.keyOf? (layout.charOf 0) ≠ some 0 ∧ layout.keyOf? (layout.charOf 4) = some 4 := by
  obtain ⟨layout, hlayout, hzero, hfour⟩ := exists_of_capitalPairs
  obtain ⟨-, hback, -⟩ := two_way_but_for_capitals hlayout
  refine ⟨layout, hlayout, hzero, fun hfound => ?_, ?_⟩
  · have hlower := (hback 0).1 hfound
    rw [hzero] at hlower
    cases hlower
  · rw [hback, hfour]
    rfl

/-- A key whose character is a capital letter is not found by it. -/
theorem capital_not_found :
    ¬ ∀ (pairs : Vector (Char × UInt8) 16) (layout : Layout), ofPairs? pairs = some layout →
      ∀ k : Nibble, layout.keyOf? (layout.charOf k) = some k := by
  intro hback
  obtain ⟨layout, hlayout, hzero, -⟩ := exists_of_capitalPairs
  have hlower := keyOf?_charOf_iff.1 (hback capitalPairs layout hlayout 0)
  rw [hzero] at hlower
  cases hlower

end Layout

end Chip8Console
