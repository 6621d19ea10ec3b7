import Chip8Console.Proofs.Keypad.Layout
import Mathlib.Data.List.Nodup
import Mathlib.Util.Superscript

/-!
# Which pairs make a layout

Sixteen pairs make a layout just if their numbers are those of the sixteen keys in some order and no two of
their characters are the same. What is looked up in the layout then depends on which pairs there are, not on
the order they are given in.

A layout can be kept in two tables, one for each way. The numbers are crossed off one after the other, which
ends with the first one that is no key or is crossed off already. Then all pairs are entered into both
tables, and what is entered later replaces what is there; a character that comes twice shows in that there
are fewer than sixteen in the end. This accepts the same pairs and finds the same.
-/

namespace Chip8Console

/-- The numbers of the keys, the lowest first. -/
def keyNumbers : List UInt8 := (List.range 16).map UInt8.ofNat

theorem mem_keyNumbers {b : UInt8} : b ∈ keyNumbers ↔ b < 16 := by
  rw [keyNumbers, List.mem_map, UInt8.lt_iff_toNat_lt]
  constructor
  · rintro ⟨n, hn, rfl⟩
    have := List.mem_range.1 hn
    show (UInt8.ofNat n).toNat < 16
    rw [UInt8.toNat_ofNat']
    omega
  · intro hb
    exact ⟨b.toNat, List.mem_range.2 hb, UInt8.ofNat_toNat⟩

/-- Sixteen numbers are those of the keys in some order if they are key numbers and none comes twice. -/
theorem perm_keyNumbers_iff {numbers : List UInt8} (hlength : numbers.length = 16) :
    numbers.Perm keyNumbers ↔ (∀ b ∈ numbers, b < 16) ∧ numbers.Nodup := by
  constructor
  · intro hperm
    exact ⟨fun b hb => mem_keyNumbers.1 (hperm.mem_iff.1 hb), hperm.nodup_iff.2 (by decide)⟩
  · rintro ⟨hkeys, hnodup⟩
    have hsub : numbers.Subperm keyNumbers :=
      List.subperm_of_subset hnodup fun b hb => mem_keyNumbers.2 (hkeys b hb)
    exact hsub.perm_of_length_le (Nat.le_of_eq hlength.symm)

namespace Layout

variable {layout : Layout} {pairs : Vector (Char × UInt8) 16} {c : Char} {b : UInt8}

def numbers (pairs : Vector (Char × UInt8) 16) : List UInt8 := pairs.toList.map Prod.snd

def characters (pairs : Vector (Char × UInt8) 16) : List Char := pairs.toList.map Prod.fst

theorem length_numbers (pairs : Vector (Char × UInt8) 16) : (numbers pairs).length = 16 := by
  rw [numbers, List.length_map, Vector.length_toList]

theorem nodup_named_iff {numbers : List UInt8} (hkeys : ∀ b ∈ numbers, b < 16) :
    (numbers.map Keys.named).Nodup ↔ numbers.Nodup := by
  refine ⟨List.Nodup.of_map _, List.Nodup.map_on fun b hb other hother hsame => ?_⟩
  rw [← Keys.ofNat_named (UInt8.lt_iff_toNat_lt.1 (hkeys b hb)), hsame,
    Keys.ofNat_named (UInt8.lt_iff_toNat_lt.1 (hkeys other hother))]

theorem isSome_ofPairs?_iff :
    (ofPairs? pairs).isSome ↔
      ((∀ b ∈ numbers pairs, b < 16) ∧ (numbers pairs).Nodup) ∧ (characters pairs).Nodup := by
  have hall : pairs.toList.all (fun pair => pair.2 < 16) = true ↔ ∀ b ∈ numbers pairs, b < 16 := by
    simp only [numbers, List.forall_mem_map, List.all_eq_true, decide_eq_true_eq]
  have hchars : (pairs.map fun pair => (pair.1, Keys.named pair.2)).toList.map Prod.fst =
      characters pairs := by
    simp [characters, Vector.toList_map, Function.comp_def]
  have hnamed : (pairs.map fun pair => (pair.1, Keys.named pair.2)).toList.map Prod.snd =
      (numbers pairs).map Keys.named := by
    simp [numbers, Vector.toList_map, Function.comp_def]
  simp only [ofPairs?, hall, hchars, hnamed]
  by_cases hkeys : ∀ b ∈ numbers pairs, b < 16
  · rw [if_pos hkeys, and_iff_right hkeys, ← nodup_named_iff hkeys]
    split
    · next hnodup => exact iff_of_true rfl hnodup.symm
    · next hnodup => exact iff_of_false Bool.false_ne_true fun h => hnodup h.symm
  · rw [if_neg hkeys]
    exact iff_of_false Bool.false_ne_true fun h => hkeys h.1.1

theorem isSome_ofPairs?_iff_perm :
    (ofPairs? pairs).isSome ↔ (numbers pairs).Perm keyNumbers ∧ (characters pairs).Nodup := by
  rw [isSome_ofPairs?_iff, perm_keyNumbers_iff (length_numbers pairs)]

def numberOf? (layout : Layout) (c : Char) : Option UInt8 :=
  (layout.keyOf? c).map fun k => UInt8.ofNat k.val

theorem numberOf?_eq_some_iff (h : ofPairs? pairs = some layout) :
    layout.numberOf? c = some b ↔ (c.toLower, b) ∈ pairs.toList := by
  rw [numberOf?, Option.map_eq_some_iff]
  constructor
  · rintro ⟨k, hkey, rfl⟩
    exact (mem_pairs_iff h).1 (keyOf?_eq_some_iff.1 hkey)
  · intro hpair
    have hnumber : UInt8.ofNat (Keys.named b).val = b :=
      Keys.ofNat_named (UInt8.lt_iff_toNat_lt.1 ((of_ofPairs? h).2 _ hpair))
    refine ⟨Keys.named b, keyOf?_eq_some_iff.2 ((mem_pairs_iff h).2 ?_), hnumber⟩
    rwa [hnumber]

theorem charOf_named_iff (h : ofPairs? pairs = some layout) :
    layout.charOf (Keys.named b) = c ↔ (c, UInt8.ofNat (b.toNat % 16)) ∈ pairs.toList := by
  rw [charOf_eq_iff, mem_pairs_iff h]
  rfl

/-- The order of the pairs makes no difference. -/
theorem ofPairs?_of_perm {others : Vector (Char × UInt8) 16} (hperm : others.toList.Perm pairs.toList)
    (h : ofPairs? pairs = some layout) :
    ∃ other, ofPairs? others = some other ∧ other.keyOf? = layout.keyOf? ∧ other.charOf = layout.charOf := by
  obtain ⟨hnumbers, hchars⟩ := isSome_ofPairs?_iff_perm.1 (Option.isSome_of_eq_some h)
  obtain ⟨other, hother⟩ : ∃ other, ofPairs? others = some other :=
    Option.isSome_iff_exists.1 (isSome_ofPairs?_iff_perm.2
      ⟨(hperm.map Prod.snd).trans hnumbers, (hperm.map Prod.fst).nodup_iff.2 hchars⟩)
  have hpairs : ∀ {c : Char} {k : Nibble},
      (c, k) ∈ other.pairs.toList ↔ (c, k) ∈ layout.pairs.toList := by
    intro c k
    rw [mem_pairs_iff hother, mem_pairs_iff h, hperm.mem_iff]
  refine ⟨other, hother, funext fun c => Option.ext fun k => ?_, funext fun k => ?_⟩
  · rw [keyOf?_eq_some_iff, keyOf?_eq_some_iff, hpairs]
  · exact charOf_eq_iff.2 (hpairs.2 (charOf_eq_iff.1 rfl))

end Layout

-- Characters are hashed by the instance of `Mathlib.Util.Superscript`, which is also found where more is imported.
/-- A layout as two tables, one for each way. -/
structure LayoutTables where
  numbers : Std.HashMap Char UInt8
  chars : Vector Char 16

namespace LayoutTables

/-- Crosses off numbers, unless one of them is no key or is crossed off already. -/
def crossOff? (seen : Vector Bool 16) : List UInt8 → Option (Vector Bool 16)
  | [] => some seen
  | b :: bs => if seen[b.toNat]? = some false then crossOff? (seen.setIfInBounds b.toNat true) bs else none

/-- The character of a pair becomes that of its key. -/
def enter (chars : Vector Char 16) (pair : Char × UInt8) : Vector Char 16 :=
  Nibble.put chars (Keys.named pair.2) pair.1

def ofPairs (pairs : List (Char × UInt8)) : LayoutTables :=
  ⟨Std.HashMap.ofList pairs, pairs.foldl enter (Vector.replicate 16 '\x00')⟩

def ofPairs? (pairs : Vector (Char × UInt8) 16) : Option LayoutTables :=
  if (crossOff? (Vector.replicate 16 false) (pairs.toList.map Prod.snd)).isSome then
    let tables := ofPairs pairs.toList
    if tables.numbers.size = 16 then some tables else none
  else none

def numberOf? (tables : LayoutTables) (c : Char) : Option UInt8 := tables.numbers[c.toLower]?

def charOf (tables : LayoutTables) (b : UInt8) : Char := tables.chars[Keys.named b]

variable {pairs : Vector (Char × UInt8) 16} {entries : List (Char × UInt8)} {numbers : List UInt8}

/-- All numbers get crossed off if each of them can be and none comes twice. -/
theorem isSome_crossOff?_iff {seen : Vector Bool 16} :
    (crossOff? seen numbers).isSome ↔ (∀ b ∈ numbers, seen[b.toNat]? = some false) ∧ numbers.Nodup := by
  induction numbers generalizing seen with
  | nil => simp [crossOff?]
  | cons b bs ih =>
    rw [crossOff?]
    by_cases hfree : seen[b.toNat]? = some false
    · have hlater : ∀ other : UInt8, (seen.setIfInBounds b.toNat true)[other.toNat]? = some false ↔
          other ≠ b ∧ seen[other.toNat]? = some false := by
        intro other
        rw [Vector.getElem?_setIfInBounds, Ne, ← UInt8.toNat_inj]
        by_cases hsame : other.toNat = b.toNat
        · simp [hsame]
        · simp [hsame, Ne.symm hsame]
      rw [if_pos hfree, ih]
      simp only [hlater, List.forall_mem_cons, List.nodup_cons]
      constructor
      · rintro ⟨hrest, hnodup⟩
        exact ⟨⟨hfree, fun other hother => (hrest other hother).2⟩, fun hb => (hrest b hb).1 rfl, hnodup⟩
      · rintro ⟨⟨-, hrest⟩, hb, hnodup⟩
        exact ⟨fun other hother => ⟨fun hsame => hb (hsame ▸ hother), hrest other hother⟩, hnodup⟩
    · rw [if_neg hfree]
      exact iff_of_false Bool.false_ne_true fun h => hfree (h.1 b List.mem_cons_self)

theorem distinct_of_nodup (hnodup : (entries.map Prod.fst).Nodup) :
    entries.Pairwise fun pair other => (pair.1 == other.1) = false := by
  rw [List.nodup_iff_pairwise_ne, List.pairwise_map] at hnodup
  exact hnodup.imp fun hne => beq_false_of_ne hne

/-- A table has as many characters as pairs have been entered if no character has come twice. -/
theorem size_ofList_iff :
    (Std.HashMap.ofList entries).size = entries.length ↔ (entries.map Prod.fst).Nodup := by
  constructor
  · intro hsize
    have hsub : (Std.HashMap.ofList entries).keys.Subperm (entries.map Prod.fst) := by
      refine List.subperm_of_subset Std.HashMap.nodup_keys fun c hc => ?_
      simpa [Std.HashMap.mem_keys, Std.HashMap.mem_ofList] using hc
    have hperm := hsub.perm_of_length_le (by rw [List.length_map, Std.HashMap.length_keys, hsize])
    exact hperm.nodup_iff.1 Std.HashMap.nodup_keys
  · intro hnodup
    exact Std.HashMap.size_ofList (distinct_of_nodup hnodup)

/-- A key has the character that is entered for it last. -/
theorem getElem_foldl_enter (entries : List (Char × UInt8)) (chars : Vector Char 16) (k : Nibble) :
    (entries.foldl enter chars)[k] =
      ((entries.reverse.find? fun pair => Keys.named pair.2 == k).map Prod.fst).getD chars[k] := by
  induction entries generalizing chars with
  | nil => rfl
  | cons pair rest ih =>
    have hset : (enter chars pair)[k] = if Keys.named pair.2 = k then pair.1 else chars[k] :=
      getElem_put_nibble ..
    rw [List.foldl_cons, ih, hset, List.reverse_cons, List.find?_append]
    cases hfound : rest.reverse.find? fun pair => Keys.named pair.2 == k with
    | some _ => rfl
    | none => by_cases hkey : Keys.named pair.2 = k <;> simp [hkey]

variable {layout : Layout} {c : Char} {b : UInt8}

theorem numberOf?_eq_some_iff (hnodup : (entries.map Prod.fst).Nodup) :
    (ofPairs entries).numberOf? c = some b ↔ (c.toLower, b) ∈ entries := by
  have hfind : ∀ {d : UInt8}, (c.toLower, d) ∈ entries → (ofPairs entries).numberOf? c = some d :=
    fun hmem => Std.HashMap.getElem?_ofList_of_mem BEq.rfl (distinct_of_nodup hnodup) hmem
  refine ⟨fun hnumber => ?_, hfind⟩
  have hentered : c.toLower ∈ Std.HashMap.ofList entries :=
    Std.HashMap.mem_iff_isSome_getElem?.2 (Option.isSome_of_eq_some hnumber)
  rw [Std.HashMap.mem_ofList, List.contains_iff_mem, List.mem_map] at hentered
  obtain ⟨pair, hpair, hchar⟩ := hentered
  have hmem : (c.toLower, pair.2) ∈ entries := hchar ▸ hpair
  rwa [← Option.some.inj ((hfind hmem).symm.trans hnumber)]

theorem charOf_of_mem (hnodup : ((entries.map Prod.snd).map Keys.named).Nodup) {number : UInt8}
    (hpair : (c, number) ∈ entries) (hkey : Keys.named number = Keys.named b) :
    (ofPairs entries).charOf b = c := by
  have hreverse : (entries.reverse.map fun pair => Keys.named pair.2).Nodup := by
    rw [List.map_reverse, List.nodup_reverse]
    rwa [List.map_map] at hnodup
  have hfound := (Layout.find?_eq_some_iff_of_nodup hreverse).2 ⟨List.mem_reverse.2 hpair, hkey⟩
  exact (getElem_foldl_enter entries _ (Keys.named b)).trans (by rw [hfound]; rfl)

/-- Tables and a layout in which the same is found for every character and every byte. -/
def Agree (tables : LayoutTables) (layout : Layout) : Prop :=
  (∀ c, tables.numberOf? c = layout.numberOf? c) ∧ ∀ b, tables.charOf b = layout.charOf (Keys.named b)

/-- The tables accept the pairs that a layout does. -/
theorem ofPairs?_eq (pairs : Vector (Char × UInt8) 16) :
    ofPairs? pairs = if (Layout.ofPairs? pairs).isSome then some (ofPairs pairs.toList) else none := by
  have hcrossed : (crossOff? (Vector.replicate 16 false) (pairs.toList.map Prod.snd)).isSome ↔
      (∀ b ∈ Layout.numbers pairs, b < 16) ∧ (Layout.numbers pairs).Nodup := by
    simp only [isSome_crossOff?_iff, Vector.getElem?_replicate, UInt8.lt_iff_toNat_lt, Layout.numbers]
    simp
  have hsize : (ofPairs pairs.toList).numbers.size = 16 ↔ (Layout.characters pairs).Nodup := by
    rw [Layout.characters, ← size_ofList_iff, Vector.length_toList]
    rfl
  simp only [ofPairs?, hcrossed, hsize, Layout.isSome_ofPairs?_iff]
  split <;> simp_all

theorem ofPairs?_agree (pairs : Vector (Char × UInt8) 16) :
    Option.Rel Agree (ofPairs? pairs) (Layout.ofPairs? pairs) := by
  rw [ofPairs?_eq]
  cases hlayout : Layout.ofPairs? pairs with
  | none => exact .none
  | some layout =>
    obtain ⟨⟨hkeys, hnumbers⟩, hchars⟩ :=
      Layout.isSome_ofPairs?_iff.1 (Option.isSome_of_eq_some hlayout)
    refine .some ⟨fun c => ?_, fun b => ?_⟩
    · exact Option.ext fun b => (numberOf?_eq_some_iff hchars).trans
        (Layout.numberOf?_eq_some_iff hlayout).symm
    · have hpair := (Layout.charOf_named_iff hlayout).1 (Eq.refl (layout.charOf (Keys.named b)))
      exact charOf_of_mem ((Layout.nodup_named_iff hkeys).2 hnumbers) hpair
        (Keys.named_ofNat (Keys.named b))

end LayoutTables

namespace Layout

/-- Pairs make a layout if their numbers are those of the keys in some order and their characters are all
different. The layout then finds for a byte the character in the pair of its key, and for a character the
number it has in the pairs, and it finds the same whatever the order of the pairs. The tables are made of the
same pairs, and the same is found in them. -/
theorem ofPairs?_exact (pairs : Vector (Char × UInt8) 16) :
    ((ofPairs? pairs).isSome ↔ (numbers pairs).Perm keyNumbers ∧ (characters pairs).Nodup) ∧
      Option.Rel LayoutTables.Agree (LayoutTables.ofPairs? pairs) (ofPairs? pairs) ∧
      ∀ layout, ofPairs? pairs = some layout →
        (∀ b c, layout.charOf (Keys.named b) = c ↔ (c, UInt8.ofNat (b.toNat % 16)) ∈ pairs.toList) ∧
        (∀ c b, layout.numberOf? c = some b ↔ (c.toLower, b) ∈ pairs.toList) ∧
        ∀ others : Vector (Char × UInt8) 16, others.toList.Perm pairs.toList →
          ∃ other, ofPairs? others = some other ∧ other.keyOf? = layout.keyOf? ∧
            other.charOf = layout.charOf :=
  ⟨isSome_ofPairs?_iff_perm, LayoutTables.ofPairs?_agree pairs, fun _ hlayout =>
    ⟨fun _ _ => charOf_named_iff hlayout, fun _ _ => numberOf?_eq_some_iff hlayout,
      fun _ hperm => ofPairs?_of_perm hperm hlayout⟩⟩

/-- The conventional pairs in the order of the keyboard. -/
def keyboardPairs : Vector (Char × UInt8) 16 :=
  #v[('1', 0x1), ('2', 0x2), ('3', 0x3), ('4', 0xC), ('q', 0x4), ('w', 0x5), ('e', 0x6), ('r', 0xD),
    ('a', 0x7), ('s', 0x8), ('d', 0x9), ('f', 0xE), ('z', 0xA), ('x', 0x0), ('c', 0xB), ('v', 0xF)]

theorem keyboardPairs_exact :
    ∃ layout, ofPairs? keyboardPairs = some layout ∧ layout.charOf (Keys.named 0x3C) = '4' ∧
      layout.numberOf? 'R' = some 0xD ∧ layout.numberOf? 'p' = none ∧
      ∃ other, ofPairs? (conventional.pairs.map fun pair => (pair.1, UInt8.ofNat pair.2.val)) = some other ∧
        other.keyOf? = layout.keyOf? := by
  obtain ⟨hmade, -, hlookup⟩ := ofPairs?_exact keyboardPairs
  obtain ⟨layout, hlayout⟩ := Option.isSome_iff_exists.1 (hmade.2 ⟨by decide, by decide⟩)
  obtain ⟨hchar, hnumber, horder⟩ := hlookup layout hlayout
  obtain ⟨other, hother, hkeys, -⟩ :=
    horder (conventional.pairs.map fun pair => (pair.1, UInt8.ofNat pair.2.val)) (by decide +kernel)
  refine ⟨layout, hlayout, (hchar 0x3C '4').2 (by decide), (hnumber 'R' 0xD).2 (by decide), ?_,
    other, hother, hkeys⟩
  refine Option.eq_none_iff_forall_ne_some.2 fun b hfound => ?_
  have hchar : 'p' ∈ characters keyboardPairs := List.mem_map_of_mem ((hnumber 'p' b).1 hfound)
  exact absurd hchar (by decide)

end Layout

end Chip8Console
