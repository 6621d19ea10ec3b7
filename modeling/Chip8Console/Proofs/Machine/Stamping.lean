import Chip8Console.Proofs.Machine.Drawing
import Mathlib.Data.List.Forall2

/-!
# Stamps on the screen

A stamp is a sprite in memory and a place for it. To draw one, a program puts its address into the index and
its coordinates into two registers, whichever they are: even the flag may be one of them, as it is read before
it is written. Memory stays as it is, so a pixel is turned over as often as there are stamps that cover it, and
only whether that is an odd number can be seen in the end: their order is lost, and two equal ones are as good
as none.

Where a stamp comes to lie depends on its column modulo the width of the screen and its row modulo the height.
The order of the cells does not, so not only the pixels but also the flags are the same.
-/

namespace Chip8Console

/-- A sprite in memory, and the place for its corner. -/
structure Stamp where
  address : UInt16
  column : UInt8
  row : UInt8
  height : Nibble
  within : address.toNat + height.val ≤ 4096
  deriving DecidableEq

namespace Stamp

def rows (s : Stamp) (ram : Ram) : List UInt8 :=
  have := s.within
  List.ofFn fun k : Fin s.height.val => ram.bytes[s.address.toNat + k.val]

theorem read_rows (s : Stamp) (ram : Ram) : ram.read s.address s.height.val = .ok (s.rows ram) :=
  dif_pos s.within

theorem length_rows_le (s : Stamp) (ram : Ram) : (s.rows ram).length ≤ 32 := by
  rw [Ram.length_of_read (s.read_rows ram)]
  omega

/-- Whether the sprite has a lit cell over a pixel. -/
def covers (ram : Ram) (px py : Nat) (s : Stamp) : Bool :=
  Sprite.covers (s.rows ram) s.column.toNat s.row.toNat px py

/-- What drawing the stamp makes of a screen, and whether it hits. -/
def drawOn (s : Stamp) (ram : Ram) (screen : Screen) : Screen × Bool :=
  screen.drawSprite s.column.toNat s.row.toNat (s.rows ram)

theorem pixel_drawOn (s : Stamp) (ram : Ram) (screen : Screen) (px py : Nat) :
    (s.drawOn ram screen).1.pixel px py = (screen.pixel px py ^^ s.covers ram px py) :=
  screen.pixel_drawSprite (s.length_rows_le ram) _ _ px py

/-- Two stamps of one sprite whose places are whole screens apart. -/
structure Congruent (s t : Stamp) : Prop where
  address : s.address = t.address
  height : s.height = t.height
  column : s.column.toNat % 64 = t.column.toNat % 64
  row : s.row.toNat % 32 = t.row.toNat % 32

theorem Congruent.drawOn_eq {s t : Stamp} (h : s.Congruent t) (ram : Ram) (screen : Screen) :
    s.drawOn ram screen = t.drawOn ram screen := by
  have hrows : s.rows ram = t.rows ram := by
    have hread := s.read_rows ram
    rw [h.address, h.height, t.read_rows] at hread
    exact (Except.ok.inj hread).symm
  rw [drawOn, drawOn, hrows, screen.drawSprite_congr h.column h.row]

def layers (ram : Ram) (stamps : List Stamp) (px py : Nat) : Nat := stamps.countP (covers ram px py)

end Stamp

/-- A stamp, and the registers for its column and its row. -/
structure Stamping extends Stamp where
  x : Nibble
  y : Nibble
  distinct : x ≠ y

namespace Machine

def prepare (m : Machine) (s : Stamping) : Machine :=
  ({ m with i := s.address }.set s.x s.column).set s.y s.row

def stamp (m : Machine) (s : Stamping) : Machine × Outcome := (m.prepare s).exec (.draw s.x s.y s.height)

/-- Draws some stamps one after the other; nothing is left if a draw faults. -/
def stampAll (m : Machine) : List Stamping → Option Machine
  | [] => some m
  | s :: rest =>
    match m.stamp s with
    | (next, .advanced) => next.stampAll rest
    | _ => none

theorem stampAll_cons {m next : Machine} {s : Stamping} (h : m.stamp s = (next, .advanced))
    (rest : List Stamping) : m.stampAll (s :: rest) = next.stampAll rest := by
  rw [stampAll, h]

/-- A machine after a stamp. -/
structure Stamped (m : Machine) (s : Stamp) (next : Machine) : Prop where
  ram : next.ram = m.ram
  screen : next.screen = (s.drawOn m.ram m.screen).1
  flag : next.v[flag] = if (s.drawOn m.ram m.screen).2 then 1 else 0

theorem v_prepare (m : Machine) (s : Stamping) :
    (m.prepare s).v[s.x] = s.column ∧ (m.prepare s).v[s.y] = s.row := by
  constructor
  · rw [prepare, v_set, if_neg s.distinct.symm, v_set, if_pos rfl]
  · rw [prepare, v_set, if_pos rfl]

theorem exists_stamp (m : Machine) (s : Stamping) :
    ∃ next, m.stamp s = (next, .advanced) ∧ m.Stamped s.toStamp next := by
  obtain ⟨hcolumn, hrow⟩ := m.v_prepare s
  have hread : (m.prepare s).ram.read (m.prepare s).i s.height.val = .ok (s.rows m.ram) :=
    s.read_rows m.ram
  have hdrawn : (m.prepare s).screen.drawSprite (m.prepare s).v[s.x].toNat (m.prepare s).v[s.y].toNat
      (s.rows m.ram) = s.drawOn m.ram m.screen := by
    rw [hcolumn, hrow]
    rfl
  refine ⟨_, exec_draw_of_read hread hdrawn, rfl, rfl, ?_⟩
  rw [v_set, if_pos rfl]

/-- Stamps can always be drawn, and a pixel ends up turned over if an odd number of them cover it. -/
theorem exists_stampAll (m : Machine) (stamps : List Stamping) :
    ∃ next, m.stampAll stamps = some next ∧ ∀ px py,
      next.screen.pixel px py =
        (m.screen.pixel px py ^^
          decide (Stamp.layers m.ram (stamps.map Stamping.toStamp) px py % 2 = 1)) := by
  induction stamps generalizing m with
  | nil => exact ⟨m, rfl, fun px py => by simp [Stamp.layers]⟩
  | cons s rest ih =>
      obtain ⟨next, hstamp, hstamped⟩ := m.exists_stamp s
      obtain ⟨last, hrest, hpixel⟩ := ih next
      refine ⟨last, (stampAll_cons hstamp rest).trans hrest, fun px py => ?_⟩
      rw [hpixel, hstamped.ram, hstamped.screen, s.pixel_drawOn, List.map_cons, Stamp.layers, Stamp.layers,
        List.countP_cons, Bool.xor_assoc, Screen.xor_odd]

/-- Two lists of stamps that can be drawn, and leave the same screen. -/
def SamePicture (m : Machine) (first second : List Stamping) : Prop :=
  ∃ a b, m.stampAll first = some a ∧ m.stampAll second = some b ∧ a.screen = b.screen

theorem samePicture_of_layers {m : Machine} {first second : List Stamping}
    (h : ∀ px py, Stamp.layers m.ram (first.map Stamping.toStamp) px py % 2 =
      Stamp.layers m.ram (second.map Stamping.toStamp) px py % 2) : m.SamePicture first second := by
  obtain ⟨a, ha, hpixel⟩ := m.exists_stampAll first
  obtain ⟨b, hb, hother⟩ := m.exists_stampAll second
  refine ⟨a, b, ha, hb, Screen.eq_of_pixel fun px py => ?_⟩
  rw [hpixel, hother, h]

theorem samePicture_of_perm (m : Machine) {first second : List Stamping}
    (h : (first.map Stamping.toStamp).Perm (second.map Stamping.toStamp)) : m.SamePicture first second :=
  samePicture_of_layers fun _ _ => congrArg (· % 2) (h.countP_eq _)

theorem samePicture_of_pair (m : Machine) (before between after : List Stamping) {s t : Stamping}
    (h : s.toStamp = t.toStamp) :
    m.SamePicture (before ++ s :: between ++ t :: after) (before ++ between ++ after) := by
  apply samePicture_of_layers
  intro px py
  simp only [Stamp.layers, List.map_append, List.map_cons, List.countP_append, List.countP_cons, h]
  split <;> omega

/-- Two machines that a program that only stamps cannot tell apart. -/
structure SameDrawing (m n : Machine) : Prop where
  ram : m.ram = n.ram
  screen : m.screen = n.screen
  flag : m.v[flag] = n.v[flag]

theorem SameDrawing.refl (m : Machine) : m.SameDrawing m := ⟨rfl, rfl, rfl⟩

theorem SameDrawing.stamped {m n next other : Machine} (h : m.SameDrawing n) {s t : Stamp}
    (hcongruent : s.Congruent t) (hm : m.Stamped s next) (hn : n.Stamped t other) :
    next.SameDrawing other := by
  have hdrawn : s.drawOn m.ram m.screen = t.drawOn n.ram n.screen := by
    rw [h.ram, h.screen, hcongruent.drawOn_eq]
  constructor
  · rw [hm.ram, hn.ram, h.ram]
  · rw [hm.screen, hn.screen, hdrawn]
  · rw [hm.flag, hn.flag, hdrawn]

/-- Each stamp may be moved by whole screens. -/
theorem SameDrawing.stampAll {m n : Machine} (h : m.SameDrawing n) {first second : List Stamping}
    (hcongruent : List.Forall₂ (fun s t => s.toStamp.Congruent t.toStamp) first second) :
    ∃ a b, m.stampAll first = some a ∧ n.stampAll second = some b ∧ a.SameDrawing b := by
  induction hcongruent generalizing m n with
  | nil => exact ⟨m, n, rfl, rfl, h⟩
  | @cons s t first second hst _ ih =>
      obtain ⟨next, hstamp, hnext⟩ := m.exists_stamp s
      obtain ⟨other, hother, hstamped⟩ := n.exists_stamp t
      rw [stampAll_cons hstamp, stampAll_cons hother]
      exact ih (h.stamped hst hnext hstamped)

/-- Stamps turn over the pixels that an odd number of them cover. They can be drawn in any order, two equal ones
cancel wherever they stand, and to move stamps by whole screens changes neither the screen nor the flag. -/
theorem stampAll_action (m : Machine) :
    (∀ stamps : List Stamping, ∃ next, m.stampAll stamps = some next ∧ ∀ px py,
      next.screen.pixel px py =
        (m.screen.pixel px py ^^
          decide (Stamp.layers m.ram (stamps.map Stamping.toStamp) px py % 2 = 1))) ∧
    (∀ first second : List Stamping, (first.map Stamping.toStamp).Perm (second.map Stamping.toStamp) →
      m.SamePicture first second) ∧
    (∀ (before between after : List Stamping) (s t : Stamping), s.toStamp = t.toStamp →
      m.SamePicture (before ++ s :: between ++ t :: after) (before ++ between ++ after)) ∧
    ∀ first second : List Stamping,
      List.Forall₂ (fun s t => s.toStamp.Congruent t.toStamp) first second →
      ∃ a b, m.stampAll first = some a ∧ m.stampAll second = some b ∧
        a.screen = b.screen ∧ a.v[flag] = b.v[flag] := by
  refine ⟨m.exists_stampAll, fun _ _ => m.samePicture_of_perm, fun before between after _ _ =>
    m.samePicture_of_pair before between after, fun first second hcongruent => ?_⟩
  obtain ⟨a, b, ha, hb, hsame⟩ := (SameDrawing.refl m).stampAll hcongruent
  exact ⟨a, b, ha, hb, hsame.screen, hsame.flag⟩

/-- A machine with a sprite of three rows in memory, and one pixel lit where the sprite will wrap to. -/
def inked : Machine :=
  { holding [0xFF, 0x81, 0xFF] with screen := (Screen.blank.toggle 1 30).1 }

/-- The sprite over the right lower corner of the screen. -/
def corner : Stamping :=
  { address := 0x200, column := 62, row := 30, height := 3, within := by decide, x := 0, y := 1,
    distinct := by decide }

/-- Its lower part over the corner, at coordinates in other registers. -/
def edge : Stamping :=
  { address := 0x201, column := 60, row := 31, height := 2, within := by decide, x := 15, y := 3,
    distinct := by decide }

/-- The sprite over the corner again, two screens to the right and two below. -/
def farCorner : Stamping :=
  { address := 0x200, column := 190, row := 94, height := 3, within := by decide, x := 7, y := 2,
    distinct := by decide }

theorem inked_action :
    inked.SamePicture [corner, edge] [edge, corner] ∧
      inked.SamePicture [corner, edge, { corner with x := 4, distinct := by decide }] [edge] ∧
      ∃ a b, inked.stampAll [corner, edge] = some a ∧ inked.stampAll [farCorner, edge] = some b ∧
        a.screen = b.screen ∧ a.v[flag] = b.v[flag] := by
  obtain ⟨-, hperm, hpair, hcongruent⟩ := stampAll_action inked
  refine ⟨hperm _ _ (.swap _ _ _), hpair [] [edge] [] _ _ rfl, hcongruent _ _ ?_⟩
  exact .cons ⟨rfl, rfl, by decide, by decide⟩ (.cons ⟨rfl, rfl, rfl, rfl⟩ .nil)

end Machine

end Chip8Console
