import Chip8Console.Notice
import Chip8Console.Text.Digits
import Chip8Console.Proofs.Instruction.Encoding
import Chip8Console.Proofs.Machine.Action
import Chip8Console.Proofs.Text.Hex

/-!
# From mnemonics back to words

A mnemonic is the name of an operation and operands with blanks and commas between them. Neither the names nor
the operands have a blank or a comma in them, so the line falls apart into just these words, and each of them
tells what it stands for: a register begins with a V, an address has three digits, a byte two and a word that is
laid down as data has four. Several instructions share an operation, but not the kinds of all its operands. So
an assembler gets back every instruction from its mnemonic, and what a step reports tells the word that was
fetched.
-/

namespace Chip8Console

namespace Assembly

/-- What the first word of a mnemonic stands for. -/
inductive Operation where
  | cls | ret | jp | call | se | sne | ld | add | or | and | xor | sub | shr | subn | shl | rnd | drw | skp
  | sknp
  /-- Lays down a word as data. -/
  | dw
  deriving DecidableEq

namespace Operation

def name : Operation → String
  | cls => "CLS"
  | ret => "RET"
  | jp => "JP"
  | call => "CALL"
  | se => "SE"
  | sne => "SNE"
  | ld => "LD"
  | add => "ADD"
  | or => "OR"
  | and => "AND"
  | xor => "XOR"
  | sub => "SUB"
  | shr => "SHR"
  | subn => "SUBN"
  | shl => "SHL"
  | rnd => "RND"
  | drw => "DRW"
  | skp => "SKP"
  | sknp => "SKNP"
  | dw => "DW"

def all : List Operation :=
  [cls, ret, jp, call, se, sne, ld, add, or, and, xor, sub, shr, subn, shl, rnd, drw, skp, sknp, dw]

def read? (cs : List Char) : Option Operation := all.find? fun operation => operation.name.toList == cs

theorem read?_name (operation : Operation) : read? operation.name.toList = some operation := by
  cases operation <;> decide

end Operation

/-- What another word of a mnemonic stands for. -/
inductive Operand where
  | register (x : Nibble)
  | address (a : Address)
  | byte (k : UInt8)
  | word (w : Word)
  /-- How many rows a sprite has. -/
  | rows (n : Nibble)
  | delay
  | sound
  | key
  | index
  /-- What the index points to. -/
  | memory
  | glyph
  | digits
  deriving DecidableEq

namespace Operand

def text : Operand → String
  | register x => "V" ++ Hex.upper 1 x.val
  | address a => "0x" ++ Hex.lower 3 a.val
  | byte k => "0x" ++ Hex.lower 2 k.toNat
  | word w => "0x" ++ Hex.lower 4 w.toNat
  | rows n => toString n.val
  | delay => "DT"
  | sound => "ST"
  | key => "K"
  | index => "I"
  | memory => "[I]"
  | glyph => "F"
  | digits => "B"

def named : List Operand := [delay, sound, key, index, memory, glyph, digits]

def register? (n : Nat) : Option Operand := if h : n < 16 then some (register ⟨n, h⟩) else none

def rows? (n : Nat) : Option Operand := if h : n < 16 then some (rows ⟨n, h⟩) else none

/-- What a number with so many digits stands for. -/
def number? : (width n : Nat) → Option Operand
  | 2, n => some (byte (UInt8.ofNat n))
  | 3, n => if h : n < 4096 then some (address ⟨n, h⟩) else none
  | 4, n => some (word (UInt16.ofNat n))
  | _, _ => none

def read? : List Char → Option Operand
  | 'V' :: ds => (Hex.read? .capital ds).bind register?
  | '0' :: 'x' :: ds => (Hex.read? .small ds).bind (number? ds.length)
  | cs => ((Digits.value? cs).bind rows?).or (named.find? fun operand => operand.text.toList == cs)

theorem toList_register (x : Nibble) :
    (register x).text.toList = 'V' :: Hex.padded .capital 1 x.val := by
  rw [text, String.toList_append]
  exact congrArg ('V' :: ·) String.toList_ofList

theorem toList_number (width n : Nat) :
    ("0x" ++ Hex.lower width n).toList = '0' :: 'x' :: Hex.padded .small width n := by
  rw [String.toList_append]
  exact congrArg ('0' :: 'x' :: ·) String.toList_ofList

theorem read?_number {width n : Nat} (hn : n < Nat.pow 16 (width + 1)) :
    read? ("0x" ++ Hex.lower (width + 1) n).toList = number? (width + 1) n := by
  rw [toList_number, read?, Hex.read?_padded, Hex.length_padded hn]
  rfl

theorem read?_text (operand : Operand) : read? operand.text.toList = some operand := by
  cases operand with
  | register x =>
    rw [toList_register, read?, Hex.read?_padded]
    exact dif_pos x.isLt
  | address a =>
    have ha : a.val < Nat.pow 16 3 := a.isLt
    exact (read?_number ha).trans (dif_pos a.isLt)
  | byte k =>
    have hk : k.toNat < Nat.pow 16 2 := k.toNat_lt
    exact (read?_number hk).trans (congrArg (some ∘ byte) UInt8.ofNat_toNat)
  | word w =>
    have hw : w.toNat < Nat.pow 16 4 := w.toNat_lt
    exact (read?_number hw).trans (congrArg (some ∘ word) UInt16.ofNat_toNat)
  | rows n =>
    revert n
    decide
  | _ => decide

end Operand

structure Line where
  operation : Operation
  operands : List Operand

namespace Line

/-- Operands behind what is written already, with commas between them. -/
def attach (s : String) : List Operand → String
  | [] => s
  | [operand] => s ++ operand.text
  | operand :: operands => attach (s ++ operand.text ++ ", ") operands

def text : Line → String
  | ⟨operation, []⟩ => operation.name
  | ⟨operation, operands⟩ => attach (operation.name ++ " ") operands

theorem attach_pair (s : String) (left right : Operand) :
    attach s [left, right] = s ++ (left.text ++ ", " ++ right.text) := by
  simp only [attach, String.append_assoc]

theorem attach_last (s : String) (left right : Operand) :
    attach s [left, right] = s ++ left.text ++ (", " ++ right.text) := by
  simp only [attach, String.append_assoc]

def instruction? : Line → Option Instruction
  | ⟨.cls, []⟩ => some .clear
  | ⟨.ret, []⟩ => some .ret
  | ⟨.jp, [.address a]⟩ => some (.jump a)
  | ⟨.jp, [.register x, .address a]⟩ => if x = 0 then some (.jumpOffset a) else none
  | ⟨.call, [.address a]⟩ => some (.call a)
  | ⟨.se, [.register x, .byte k]⟩ => some (.skipEqByte x k)
  | ⟨.se, [.register x, .register y]⟩ => some (.skipEq x y)
  | ⟨.sne, [.register x, .byte k]⟩ => some (.skipNeByte x k)
  | ⟨.sne, [.register x, .register y]⟩ => some (.skipNe x y)
  | ⟨.ld, [.register x, .byte k]⟩ => some (.setByte x k)
  | ⟨.ld, [.register x, .register y]⟩ => some (.copy x y)
  | ⟨.ld, [.index, .address a]⟩ => some (.setIndex a)
  | ⟨.ld, [.register x, .delay]⟩ => some (.readDelay x)
  | ⟨.ld, [.register x, .key]⟩ => some (.awaitKey x)
  | ⟨.ld, [.delay, .register x]⟩ => some (.setDelay x)
  | ⟨.ld, [.sound, .register x]⟩ => some (.setSound x)
  | ⟨.ld, [.glyph, .register x]⟩ => some (.glyph x)
  | ⟨.ld, [.digits, .register x]⟩ => some (.decimal x)
  | ⟨.ld, [.memory, .register x]⟩ => some (.store x)
  | ⟨.ld, [.register x, .memory]⟩ => some (.load x)
  | ⟨.add, [.register x, .byte k]⟩ => some (.addByte x k)
  | ⟨.add, [.register x, .register y]⟩ => some (.add x y)
  | ⟨.add, [.index, .register x]⟩ => some (.addIndex x)
  | ⟨.or, [.register x, .register y]⟩ => some (.or x y)
  | ⟨.and, [.register x, .register y]⟩ => some (.and x y)
  | ⟨.xor, [.register x, .register y]⟩ => some (.xor x y)
  | ⟨.sub, [.register x, .register y]⟩ => some (.sub x y)
  | ⟨.shr, [.register x, .register y]⟩ => some (.shiftRight x y)
  | ⟨.subn, [.register x, .register y]⟩ => some (.subFrom x y)
  | ⟨.shl, [.register x, .register y]⟩ => some (.shiftLeft x y)
  | ⟨.rnd, [.register x, .byte k]⟩ => some (.random x k)
  | ⟨.drw, [.register x, .register y, .rows n]⟩ => some (.draw x y n)
  | ⟨.skp, [.register x]⟩ => some (.skipPressed x)
  | ⟨.sknp, [.register x]⟩ => some (.skipReleased x)
  | ⟨.dw, [.word w]⟩ => some (.unknown w)
  | _ => none

end Line

end Assembly

namespace Instruction

def line : Instruction → Assembly.Line
  | clear => ⟨.cls, []⟩
  | ret => ⟨.ret, []⟩
  | jump a => ⟨.jp, [.address a]⟩
  | call a => ⟨.call, [.address a]⟩
  | skipEqByte x k => ⟨.se, [.register x, .byte k]⟩
  | skipNeByte x k => ⟨.sne, [.register x, .byte k]⟩
  | skipEq x y => ⟨.se, [.register x, .register y]⟩
  | setByte x k => ⟨.ld, [.register x, .byte k]⟩
  | addByte x k => ⟨.add, [.register x, .byte k]⟩
  | copy x y => ⟨.ld, [.register x, .register y]⟩
  | or x y => ⟨.or, [.register x, .register y]⟩
  | and x y => ⟨.and, [.register x, .register y]⟩
  | xor x y => ⟨.xor, [.register x, .register y]⟩
  | add x y => ⟨.add, [.register x, .register y]⟩
  | sub x y => ⟨.sub, [.register x, .register y]⟩
  | shiftRight x y => ⟨.shr, [.register x, .register y]⟩
  | subFrom x y => ⟨.subn, [.register x, .register y]⟩
  | shiftLeft x y => ⟨.shl, [.register x, .register y]⟩
  | skipNe x y => ⟨.sne, [.register x, .register y]⟩
  | setIndex a => ⟨.ld, [.index, .address a]⟩
  | jumpOffset a => ⟨.jp, [.register 0, .address a]⟩
  | random x k => ⟨.rnd, [.register x, .byte k]⟩
  | draw x y n => ⟨.drw, [.register x, .register y, .rows n]⟩
  | skipPressed x => ⟨.skp, [.register x]⟩
  | skipReleased x => ⟨.sknp, [.register x]⟩
  | readDelay x => ⟨.ld, [.register x, .delay]⟩
  | awaitKey x => ⟨.ld, [.register x, .key]⟩
  | setDelay x => ⟨.ld, [.delay, .register x]⟩
  | setSound x => ⟨.ld, [.sound, .register x]⟩
  | addIndex x => ⟨.add, [.index, .register x]⟩
  | glyph x => ⟨.ld, [.glyph, .register x]⟩
  | decimal x => ⟨.ld, [.digits, .register x]⟩
  | store x => ⟨.ld, [.memory, .register x]⟩
  | load x => ⟨.ld, [.register x, .memory]⟩
  | unknown w => ⟨.dw, [.word w]⟩

theorem instruction?_line (i : Instruction) : i.line.instruction? = some i := by
  cases i <;> rfl

theorem text_register_zero : (Assembly.Operand.register 0).text = "V0" := by
  have hdigits : Hex.padded .capital 1 0 = ['0'] := by
    rw [Hex.padded, Hex.digits]
    rfl
  apply String.toList_inj.1
  rw [Assembly.Operand.toList_register]
  exact congrArg ('V' :: ·) hdigits

theorem mnemonic_eq (i : Instruction) : i.mnemonic = i.line.text := by
  cases i with
  | skipEq x y | copy x y | or x y | and x y | xor x y | add x y | sub x y | shiftRight x y | subFrom x y
  | shiftLeft x y | skipNe x y => exact (Assembly.Line.attach_pair _ (.register x) (.register y)).symm
  | draw x y n =>
    have hregisters := Assembly.Line.attach_pair "DRW " (.register x) (.register y)
    exact congrArg (· ++ ", " ++ (Assembly.Operand.rows n).text) hregisters.symm
  | jumpOffset a =>
    show _ = "JP" ++ " " ++ (Assembly.Operand.register 0).text ++ ", " ++ (Assembly.Operand.address a).text
    rw [text_register_zero]
    rfl
  | readDelay x => exact (Assembly.Line.attach_last "LD " (.register x) .delay).symm
  | awaitKey x => exact (Assembly.Line.attach_last "LD " (.register x) .key).symm
  | load x => exact (Assembly.Line.attach_last "LD " (.register x) .memory).symm
  | unknown w =>
    show "DW " ++ "0x" ++ Hex.lower 4 w.toNat = "DW " ++ ("0x" ++ Hex.lower 4 w.toNat)
    exact String.append_assoc
  | _ => rfl

end Instruction

/-! ## The words of a line -/

namespace Assembly

variable {cs front rest : List Char} {gap : Char}

def isGap (c : Char) : Bool := c == ' ' || c == ','

def words (cs : List Char) : List (List Char) := (cs.splitOnP isGap).filter fun word => !word.isEmpty

/-- One word: neither a blank nor a comma is in it. -/
structure IsWord (cs : List Char) : Prop where
  ne_nil : cs ≠ []
  solid : ∀ c ∈ cs, isGap c = false

theorem words_of_isWord (h : IsWord cs) : words cs = [cs] := by
  rw [words, List.splitOnP_eq_singleton h.solid]
  exact List.filter_eq_self.2 (by simpa using h.ne_nil)

theorem words_append_gap (hgap : isGap gap = true) (front rest : List Char) :
    words (front ++ gap :: rest) = words front ++ words rest := by
  rw [words, List.splitOnP_append_cons front rest hgap, List.filter_append]
  rfl

theorem words_gap (hgap : isGap gap = true) (front : List Char) : words (front ++ [gap]) = words front := by
  rw [words_append_gap hgap]
  exact List.append_nil _

theorem isGap_digit {letters : Hex.Letters} {d : Nat} (hd : d < 16) : isGap (Hex.digit letters d) = false := by
  have hall : ∀ k : Fin 16, isGap (Hex.digit letters k.val) = false := by
    cases letters <;> decide
  exact hall ⟨d, hd⟩

theorem isGap_of_mem_padded {letters : Hex.Letters} {width n : Nat} {c : Char}
    (hc : c ∈ Hex.padded letters width n) : isGap c = false := by
  obtain ⟨d, hd, rfl⟩ := Hex.exists_digit_of_mem_padded hc
  exact isGap_digit hd

theorem isWord_of_any (hne : cs ≠ []) (hany : cs.any isGap = false) : IsWord cs := by
  refine ⟨hne, fun c hc => ?_⟩
  simpa using List.any_eq_false.1 hany c hc

theorem IsWord.cons {c : Char} (hc : isGap c = false) (hrest : ∀ d ∈ cs, isGap d = false) : IsWord (c :: cs) :=
  ⟨List.cons_ne_nil c cs, List.forall_mem_cons.2 ⟨hc, hrest⟩⟩

theorem IsWord.append (h : IsWord cs) (hrest : ∀ d ∈ rest, isGap d = false) : IsWord (cs ++ rest) :=
  ⟨List.append_ne_nil_of_left_ne_nil h.ne_nil rest, List.forall_mem_append.2 ⟨h.solid, hrest⟩⟩

theorem isWord_number (width n : Nat) : IsWord ("0x" ++ Hex.lower width n).toList := by
  rw [Operand.toList_number]
  exact .cons rfl (List.forall_mem_cons.2 ⟨rfl, fun _ => isGap_of_mem_padded⟩)

theorem isWord_text (operand : Operand) : IsWord operand.text.toList := by
  cases operand with
  | register x =>
    rw [Operand.toList_register]
    exact .cons rfl fun _ => isGap_of_mem_padded
  | address a => exact isWord_number 3 a.val
  | byte k => exact isWord_number 2 k.toNat
  | word w => exact isWord_number 4 w.toNat
  | rows n => apply isWord_of_any <;> revert n <;> decide
  | _ => apply isWord_of_any <;> decide

theorem isWord_name (operation : Operation) : IsWord operation.name.toList := by
  cases operation <;> apply isWord_of_any <;> decide

/-- Each operand that is attached adds a word. -/
theorem words_attach {s : String} (hs : s.toList = front ++ [gap]) (hgap : isGap gap = true)
    (operands : List Operand) :
    words (Line.attach s operands).toList = words front ++ operands.map fun operand => operand.text.toList := by
  fun_induction Line.attach s operands generalizing front gap with
  | case1 s => rw [hs, words_gap hgap, List.map_nil, List.append_nil]
  | case2 s operand =>
    rw [String.toList_append, hs, List.append_assoc, List.singleton_append, words_append_gap hgap,
      words_of_isWord (isWord_text operand), List.map_singleton]
  | case3 s operand operands hne ih =>
    -- What is written so far ends in the blank behind the comma, so the next operand begins a word again.
    have hs' : (s ++ operand.text ++ ", ").toList =
        (front ++ gap :: (operand.text.toList ++ [','])) ++ [' '] := by
      simp [hs]
    rw [ih hs' rfl, words_append_gap hgap, words_gap rfl, words_of_isWord (isWord_text operand)]
    simp

/-- The words of a line are the name of the operation and the operands. -/
theorem words_line (line : Line) :
    words line.text.toList =
      line.operation.name.toList :: line.operands.map fun operand => operand.text.toList := by
  obtain ⟨operation, operands⟩ := line
  have hname := words_of_isWord (isWord_name operation)
  cases operands with
  | nil => exact hname
  | cons operand operands =>
    have hopening : (operation.name ++ " ").toList = operation.name.toList ++ [' '] := String.toList_append
    exact (words_attach hopening rfl (operand :: operands)).trans (by rw [hname]; rfl)

/-! ## The assembler -/

def instruction? : List (List Char) → Option Instruction
  | [] => none
  | name :: operands => do
    let operation ← Operation.read? name
    let operands ← operands.mapM Operand.read?
    Line.instruction? ⟨operation, operands⟩

def assemble? (line : String) : Option Instruction := instruction? (words line.toList)

theorem mapM_read? (operands : List Operand) :
    (operands.map fun operand => operand.text.toList).mapM Operand.read? = some operands := by
  induction operands with
  | nil => rfl
  | cons operand operands ih =>
    rw [List.map_cons, List.mapM_cons, Operand.read?_text, ih]
    rfl

theorem instruction?_words_mnemonic (i : Instruction) : instruction? (words i.mnemonic.toList) = some i := by
  rw [i.mnemonic_eq, words_line, instruction?, Operation.read?_name, mapM_read?]
  exact i.instruction?_line

theorem assemble?_mnemonic (i : Instruction) : assemble? i.mnemonic = some i :=
  instruction?_words_mnemonic i

/-- The word that was fetched, from the line that reports the step. Its first two words are left aside; they say
where the fetched word stood, and show it in digits. -/
def fetched? (line : String) : Option Word :=
  (instruction? ((words line.toList).drop 2)).map Instruction.toWord

theorem isWord_digits (w : Word) : IsWord (Hex.lower 4 w.toNat).toList := by
  have hw : w.toNat < Nat.pow 16 4 := w.toNat_lt
  rw [Hex.lower, String.toList_ofList]
  exact ⟨List.ne_nil_of_length_eq_add_one (Hex.length_padded hw), fun _ => isGap_of_mem_padded⟩

theorem words_fetched (pc : UInt16) (w : Word) :
    words (Notice.fetched pc w).text.toList =
      (("0x" ++ Hex.lower 3 pc.toNat).toList ++ [':']) :: (Hex.lower 4 w.toNat).toList ::
        words (Instruction.ofWord w).mnemonic.toList := by
  -- Two blanks stand in front of the mnemonic, with no word between them.
  have htext : (Notice.fetched pc w).text.toList =
      (("0x" ++ Hex.lower 3 pc.toNat).toList ++ [':']) ++ ' ' :: ((Hex.lower 4 w.toNat).toList ++ ' ' ::
        ([] ++ ' ' :: (Instruction.ofWord w).mnemonic.toList)) := by
    show ("0x" ++ Hex.lower 3 pc.toNat ++ ": " ++ Hex.lower 4 w.toNat ++ "  " ++
      (Instruction.ofWord w).mnemonic).toList = _
    simp
  have hplace : IsWord (("0x" ++ Hex.lower 3 pc.toNat).toList ++ [':']) :=
    (isWord_number 3 pc.toNat).append (List.forall_mem_singleton.2 rfl)
  have hblank : isGap ' ' = true := rfl
  rw [htext, words_append_gap hblank, words_append_gap hblank, words_append_gap hblank,
    words_of_isWord hplace, words_of_isWord (isWord_digits w)]
  rfl

theorem fetched?_text (pc : UInt16) (w : Word) : fetched? (Notice.fetched pc w).text = some w := by
  rw [fetched?, words_fetched]
  show (instruction? (words (Instruction.ofWord w).mnemonic.toList)).map Instruction.toWord = some w
  rw [instruction?_words_mnemonic, Option.map_some, Instruction.toWord_ofWord]

end Assembly

namespace Instruction

/-- A step reports the word that it fetches and carries out, and nothing else in as much detail. -/
theorem exists_fetched {m : Machine} {n : Notice} (hn : n ∈ Notice.ofStep m) (hlevel : n.level = .trace) :
    ∃ w, m.fetch = .ok w ∧ m.step = m.exec (.ofWord w) ∧ n = .fetched m.pc w := by
  unfold Notice.ofStep at hn
  split at hn
  · exact absurd hn List.not_mem_nil
  · next hwaiting =>
    have hnone : m.waiting = none := Option.not_isSome_iff_eq_none.1 hwaiting
    split at hn
    · exact absurd hn List.not_mem_nil
    · next w hfetch =>
      refine ⟨w, hfetch, Machine.step_of_fetch hnone hfetch, ?_⟩
      rcases List.mem_cons.1 hn with rfl | hskipped
      · rfl
      · unfold Notice.ofExec at hskipped
        split at hskipped
        · obtain rfl := List.mem_singleton.1 hskipped
          cases hlevel
        · exact absurd hskipped List.not_mem_nil

/-- Nothing is lost on the way from a word to its instruction and back, nor on the way from an instruction to
its word and back, unless it calls a word unknown that fits the pattern of some form. Nor is anything lost in a
mnemonic: there is an assembler that gets every instruction back, so no two have the same one. What a step
reports in most detail tells the word that it carries out. -/
theorem nothing_lost :
    (∀ w : Word, (ofWord w).toWord = w) ∧
      (∀ i : Instruction, ofWord i.toWord = i ↔ ∀ w, i = unknown w → ¬ w.Listed) ∧
      (∀ i : Instruction, Assembly.assemble? i.mnemonic = some i) ∧
      Function.Injective mnemonic ∧
      ∀ (m : Machine) (n : Notice), n ∈ Notice.ofStep m → n.level = .trace →
        ∃ w, m.fetch = .ok w ∧ m.step = m.exec (.ofWord w) ∧ Assembly.fetched? n.text = some w := by
  refine ⟨toWord_ofWord, ofWord_toWord_iff, Assembly.assemble?_mnemonic, ?_, ?_⟩
  · intro i j hsame
    have hi := Assembly.assemble?_mnemonic i
    rw [hsame, Assembly.assemble?_mnemonic j] at hi
    exact (Option.some.inj hi).symm
  · intro m n hn hlevel
    obtain ⟨w, hfetch, hstep, rfl⟩ := exists_fetched hn hlevel
    exact ⟨w, hfetch, hstep, Assembly.fetched?_text m.pc w⟩

def settingTen : Machine := .holding [0x6A, 0x0F]

theorem settingTen_read_back :
    Notice.fetched 0x200 0x6A0F ∈ Notice.ofStep settingTen ∧
      settingTen.step = settingTen.exec (.setByte 0xA 0x0F) ∧
      Assembly.fetched? "0x200: 6a0f  LD VA, 0x0f" = some 0x6A0F := by
  have hfetch : settingTen.fetch = .ok 0x6A0F := eq_ok_of_toOption (by decide +kernel)
  have hreport : Notice.fetched 0x200 0x6A0F ∈ Notice.ofStep settingTen := by
    unfold Notice.ofStep
    rw [if_neg (by decide), hfetch]
    exact List.mem_cons_self
  have hlevel : (Notice.fetched 0x200 0x6A0F).level = .trace := rfl
  have htext : (Notice.fetched 0x200 0x6A0F).text = "0x200: 6a0f  LD VA, 0x0f" := by
    decide +kernel
  obtain ⟨-, -, -, -, hreported⟩ := nothing_lost
  obtain ⟨w, hw, hstep, hline⟩ := hreported settingTen _ hreport hlevel
  obtain rfl : w = 0x6A0F := Except.ok.inj (hw.symm.trans hfetch)
  exact ⟨hreport, hstep, htext ▸ hline⟩

end Instruction

end Chip8Console
