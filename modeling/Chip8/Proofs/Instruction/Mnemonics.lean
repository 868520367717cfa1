import Chip8.Instruction.Mnemonic
import Chip8.Proofs.Instruction.Words
import Mathlib.Algebra.Order.Group.Nat

/-!
# Reading mnemonics

A line of assembly is read back word by word: the name, then each operand by its looks. What is
read is the instruction that was written, so no two instructions are written alike. Two words of a
program are told apart by their mnemonics unless they skip on two registers and differ in the last
digit, which those instructions do not look at.
-/

namespace Chip8

namespace Hex

/-- The value of a digit. -/
def digitValue (c : Char) : Nat := if c.toNat < 58 then c.toNat - 48 else c.toNat - 55

/-- The value of a string of digits. -/
def value (digits : List Char) : Nat := digits.foldl (fun n c => 16 * n + digitValue c) 0

theorem digitValue_digit : ∀ d < 16, digitValue (digit d) = d := by decide

theorem value_concat (digits : List Char) (c : Char) :
    value (digits ++ [c]) = 16 * value digits + digitValue c := by
  simp [value]

/-- A numeral of fixed width has the value of the lowest digits. -/
theorem value_low (width n : Nat) : value (low width n) = n % 16 ^ width := by
  induction width generalizing n with
  | zero => exact (Nat.mod_one n).symm
  | succ width ih =>
    have last := digitValue_digit (n % 16) (Nat.mod_lt n (by decide))
    rw [low, value_concat, ih, last, Nat.pow_succ', Nat.mod_mul]
    omega

theorem ne_of_mem_low {c d : Char} (other : ∀ k < 16, digit k ≠ c) {width n : Nat}
    (inside : d ∈ low width n) : d ≠ c := by
  induction width generalizing n with
  | zero => exact nomatch inside
  | succ width ih =>
    rcases List.mem_append.mp inside with high | last
    · exact ih high
    · rw [List.mem_singleton.mp last]
      exact other _ (Nat.mod_lt n (by decide))

end Hex

namespace Operand

/-- The places that instructions name. -/
def places : List String := ["I", "DT", "ST", "K", "F", "B", "[I]"]

/-- Nothing that could be read as another operand is called a place. -/
def Proper : Operand → Prop
  | place name => name ∈ places
  | _ => True

/-- The operand that a word of a line stands for. -/
def ofChars (text : List Char) : Operand :=
  -- no digit is a V or an x, and of what has four letters only a word has no x
  if text.head? = some 'V' then register (Nibble.ofNat (Hex.value text.tail))
  else if text[1]? = some 'x' then
    if text.length = 4 then byte (Hex.value (text.drop 2)).toUInt8
    else address (Opcode.address (Hex.value (text.drop 2)).toUInt16)
  else if text.length = 4 then word (Hex.value text).toUInt16
  else if text.all Char.isDigit then height (Nibble.ofNat (Nat.ofDigitChars 10 text 0))
  else place (String.ofList text)

theorem digit_ne_V : ∀ k < 16, Hex.digit k ≠ 'V' := by decide

theorem digit_ne_x : ∀ k < 16, Hex.digit k ≠ 'x' := by decide

theorem ofChars_register : ∀ x : Reg, ofChars (register x).chars = register x := by decide

theorem ofChars_height : ∀ n : Nibble, ofChars (height n).chars = height n := by decide

theorem ofChars_place : ∀ name ∈ places, ofChars (place name).chars = place name := by decide

theorem ofChars_byte (value : UInt8) : ofChars (byte value).chars = byte value := by
  have read := Hex.value_low 2 value.toNat
  have bound := value.toNat_lt
  rw [Nat.mod_eq_of_lt (by omega)] at read
  simp [ofChars, chars, read]

theorem ofChars_address (a : Address) : ofChars (address a).chars = address a := by
  have read := Hex.value_low 3 a
  rw [Nat.mod_eq_of_lt (by omega)] at read
  have back : Opcode.address a.val.toUInt16 = a :=
    Fin.ext ((congrArg (· % 0x1000) (Nat.mod_eq_of_lt (by omega))).trans (Nat.mod_eq_of_lt a.isLt))
  simp [ofChars, chars, read, back]

theorem ofChars_word (op : UInt16) : ofChars (word op).chars = word op := by
  have read := Hex.value_low 4 op.toNat
  have bound := op.toNat_lt
  rw [Nat.mod_eq_of_lt (by omega)] at read
  have first : (Hex.low 4 op.toNat).head? ≠ some 'V' := fun h =>
    Hex.ne_of_mem_low digit_ne_V (List.mem_of_head? h) rfl
  have second : (Hex.low 4 op.toNat)[1] ≠ 'x' := Hex.ne_of_mem_low digit_ne_x (List.getElem_mem _)
  simp [ofChars, chars, first, second, read]

/-- An operand is read back from what is written for it. -/
theorem ofChars_chars {o : Operand} (proper : o.Proper) : ofChars o.chars = o := by
  cases o with
  | register x => exact ofChars_register x
  | byte value => exact ofChars_byte value
  | address a => exact ofChars_address a
  | height n => exact ofChars_height n
  | word op => exact ofChars_word op
  | place name => exact ofChars_place name proper

/-- Whether a letter can stand inside a word. -/
def inWord (c : Char) : Bool := c != ' ' && c != ','

theorem all_inWord_low (width n : Nat) : (Hex.low width n).all inWord := by
  refine List.all_eq_true.mpr fun c inside => ?_
  have blank : c ≠ ' ' := Hex.ne_of_mem_low (by decide) inside
  have comma : c ≠ ',' := Hex.ne_of_mem_low (by decide) inside
  simp [inWord, blank, comma]

theorem all_inWord_chars {o : Operand} (proper : o.Proper) : o.chars.all inWord := by
  cases o with
  | register x => clear proper; decide +revert
  | byte value => exact all_inWord_low 2 value.toNat
  | address a => exact all_inWord_low 3 a
  | height n => clear proper; decide +revert
  | word op => exact all_inWord_low 4 op.toNat
  | place name =>
    have named : ∀ name ∈ places, (place name).chars.all inWord := by decide
    exact named name proper

end Operand

namespace Mnemonic
open Operand

/-- The mnemonic that a line reads as: words between blanks, with the commas left out. -/
def ofChars (line : List Char) : Mnemonic :=
  match (line.filter (· != ',')).splitOn ' ' with
  | [] => ⟨"", []⟩
  | name :: operands => ⟨String.ofList name, operands.map Operand.ofChars⟩

/-- A name in one word, and operands that are what they look like. -/
structure Proper (m : Mnemonic) : Prop where
  name : m.name.toList.all inWord
  operands : ∀ o ∈ m.operands, o.Proper

theorem ne_of_inWord {word : List Char} (inside : word.all inWord) {c : Char} (mem : c ∈ word) :
    c ≠ ' ' ∧ c ≠ ',' := by
  simpa [inWord] using List.all_eq_true.mp inside c mem

theorem filter_of_inWord {word : List Char} (inside : word.all inWord) :
    word.filter (· != ',') = word :=
  List.filter_eq_self.mpr fun _ mem => bne_iff_ne.mpr (ne_of_inWord inside mem).2

theorem filter_following {operands : List Operand} (proper : ∀ o ∈ operands, o.Proper) :
    (operands.flatMap fun o => ',' :: ' ' :: o.chars).filter (· != ',') =
      operands.flatMap fun o => ' ' :: o.chars := by
  induction operands with
  | nil => rfl
  | cons o rest ih =>
    obtain ⟨first, rest⟩ := List.forall_mem_cons.mp proper
    simp [filter_of_inWord (all_inWord_chars first), ih rest]

theorem intercalate_cons {first : List Char} {rest : List (List Char)} :
    [' '].intercalate (first :: rest) = first ++ rest.flatMap (' ' :: ·) := by
  induction rest generalizing first with
  | nil => simp
  | cons second rest ih => rw [List.intercalate_cons_cons, ih]; simp

theorem filter_chars {m : Mnemonic} (proper : m.Proper) :
    m.chars.filter (· != ',') =
      [' '].intercalate (m.name.toList :: m.operands.map Operand.chars) := by
  have name := filter_of_inWord proper.name
  rw [intercalate_cons, List.flatMap_map]
  unfold chars
  split
  · next none => simp [name, none]
  · next first rest some =>
    obtain ⟨one, following⟩ := List.forall_mem_cons.mp (some ▸ proper.operands)
    simp [name, some, filter_of_inWord (all_inWord_chars one), filter_following following]

/-- A mnemonic is read back from its line. -/
theorem ofChars_chars {m : Mnemonic} (proper : m.Proper) : ofChars m.chars = m := by
  have inside : ∀ word ∈ m.name.toList :: m.operands.map Operand.chars, ' ' ∉ word := by
    refine List.forall_mem_cons.mpr ⟨fun blank => (ne_of_inWord proper.name blank).1 rfl, ?_⟩
    rintro _ operand blank
    obtain ⟨o, mem, rfl⟩ := List.mem_map.mp operand
    exact (ne_of_inWord (all_inWord_chars (proper.operands o mem)) blank).1 rfl
  have operands : (m.operands.map Operand.chars).map Operand.ofChars = m.operands := by
    rw [List.map_map]
    exact (List.map_congr_left fun o mem => Operand.ofChars_chars (proper.operands o mem)).trans
      (List.map_id _)
  rw [ofChars, filter_chars proper, List.splitOn_intercalate ' ' inside nofun]
  simp [operands]

end Mnemonic

namespace Instruction
open Operand

/-- The instruction that a mnemonic stands for. -/
def ofMnemonic? (m : Mnemonic) : Option Instruction :=
  match m.name, m.operands with
  | "CLS", [] => some clear
  | "RET", [] => some ret
  | "JP", [address a] => some (jump a)
  | "JP", [register _, address a] => some (jumpFrom a)
  | "CALL", [address a] => some (call a)
  | "SE", [register x, byte b] => some (skipIfByte x b)
  | "SE", [register x, register y] => some (skipIfEqual x y)
  | "SNE", [register x, byte b] => some (skipUnlessByte x b)
  | "SNE", [register x, register y] => some (skipUnlessEqual x y)
  | "LD", [register x, byte b] => some (setByte x b)
  | "LD", [register x, register y] => some (copy x y)
  | "LD", [register x, place "DT"] => some (readDelay x)
  | "LD", [register x, place "K"] => some (awaitKey x)
  | "LD", [register x, place "[I]"] => some (loadRegisters x)
  | "LD", [place "I", address a] => some (setIndex a)
  | "LD", [place "DT", register x] => some (setDelay x)
  | "LD", [place "ST", register x] => some (setSound x)
  | "LD", [place "F", register x] => some (pointAtGlyph x)
  | "LD", [place "B", register x] => some (storeDigits x)
  | "LD", [place "[I]", register x] => some (storeRegisters x)
  | "ADD", [register x, byte b] => some (addByte x b)
  | "ADD", [register x, register y] => some (add x y)
  | "ADD", [place "I", register x] => some (addIndex x)
  | "OR", [register x, register y] => some (bitOr x y)
  | "AND", [register x, register y] => some (bitAnd x y)
  | "XOR", [register x, register y] => some (bitXor x y)
  | "SUB", [register x, register y] => some (subtract x y)
  | "SUBN", [register x, register y] => some (subtractFrom x y)
  | "SHR", [register x, register y] => some (halve x y)
  | "SHL", [register x, register y] => some (double x y)
  | "RND", [register x, byte b] => some (random x b)
  | "DRW", [register x, register y, height n] => some (draw x y n)
  | "SKP", [register x] => some (skipIfHeld x)
  | "SKNP", [register x] => some (skipUnlessHeld x)
  | "???", [word op] => some (unsupported op)
  | _, _ => none

/-- Names that several instructions share are told apart by their operands. -/
theorem ofMnemonic?_mnemonic (i : Instruction) : ofMnemonic? i.mnemonic = some i := by
  cases i <;> rfl

theorem proper_mnemonic (i : Instruction) : i.mnemonic.Proper := by
  constructor
  · cases i <;> simp only [mnemonic] <;> decide
  · cases i <;> simp [mnemonic, Operand.Proper, places]

/-- The instruction that a line stands for. -/
def ofText? (line : String) : Option Instruction := ofMnemonic? (Mnemonic.ofChars line.toList)

/-- An instruction is read back from its line. -/
theorem ofText?_text (i : Instruction) : ofText? i.text = some i := by
  have chars : i.text.toList = i.mnemonic.chars := String.toList_ofList
  rw [ofText?, chars, Mnemonic.ofChars_chars (proper_mnemonic i), ofMnemonic?_mnemonic]

/-- No two instructions are written alike. -/
theorem text_inj {i j : Instruction} : i.text = j.text ↔ i = j := by
  refine ⟨fun alike => ?_, congrArg text⟩
  have read := congrArg ofText? alike
  rwa [ofText?_text, ofText?_text, Option.some.injEq] at read

/-- Two numbers in the row of one instruction are the same, but for the last digit of a skip on two
registers. -/
theorem eq_of_writtenAs {i : Instruction} {m n : Nat} (hm : WrittenAs m i) (hn : WrittenAs n i) :
    m = n ∨ m / 16 = n / 16 ∧ (m / 0x1000 = 5 ∨ m / 0x1000 = 9) := by
  cases i <;> simp only [WrittenAs] at hm hn <;> omega

theorem eq_unsupported_of_vacant {i : Instruction} {n : Nat} (row : WrittenAs n i)
    (vacant : Vacant n) : ∃ word, i = unsupported word := by
  cases i <;> simp only [WrittenAs, Vacant] at row vacant <;> first | exact ⟨_, rfl⟩ | omega

/-- The skips on two registers do not look at the last digit. -/
theorem decode_eq_of_skips {a b : Opcode} (digits : a.toNat / 16 = b.toNat / 16)
    (skips : a.family = 5 ∨ a.family = 9) : decode a = decode b := by
  have family : a.family = b.family := by unfold Opcode.family; omega
  have x : a.x = b.x := by rw [Fin.ext_iff, Opcode.val_x, Opcode.val_x]; omega
  have y : a.y = b.y := by rw [Fin.ext_iff, Opcode.val_y, Opcode.val_y]; omega
  rcases skips with five | nine
  · simp only [decode, ← family, five, x, y]
  · simp only [decode, ← family, nine, x, y]

/-- Decoding forgets nothing but the last digit of a skip on two registers. -/
theorem decode_eq_iff (a b : Opcode) :
    decode a = decode b ↔
      a = b ∨ a.toNat / 16 = b.toNat / 16 ∧ (a.family = 5 ∨ a.family = 9) := by
  constructor
  · intro alike
    rcases eq_of_writtenAs (writtenAs_decode a) (alike ▸ writtenAs_decode b) with same | skips
    · exact .inl (UInt16.toNat_inj.mp same)
    · exact .inr skips
  · rintro (rfl | ⟨digits, skips⟩)
    · rfl
    · exact decode_eq_of_skips digits skips

/-- A word means nothing just where it has no row in the table. -/
theorem decode_eq_unsupported_iff (op word : Opcode) :
    decode op = unsupported word ↔ word = op ∧ Vacant op.toNat := by
  have row := writtenAs_decode op
  constructor
  · intro h
    rw [h] at row
    exact ⟨UInt16.toNat_inj.mp row.1.symm, row.2⟩
  · rintro ⟨rfl, vacant⟩
    obtain ⟨found, h⟩ := eq_unsupported_of_vacant row vacant
    rw [h] at row ⊢
    rw [UInt16.toNat_inj.mp row.1]

theorem text_unsupported (word : Opcode) :
    (unsupported word).text = "??? " ++ String.ofList (Hex.low 4 word.toNat) := by
  rw [← String.toList_inj]
  simp [text, Mnemonic.text, mnemonic, Mnemonic.chars, Operand.chars]

/-- Mnemonics tell two words apart, unless they are the same instruction: a skip on two registers,
which does not look at the last digit. A word that means nothing is written with its number, and
only such words are. -/
theorem text_decode_eq_iff (a b : Opcode) :
    ((decode a).text = (decode b).text ↔
        a = b ∨ a.toNat / 16 = b.toNat / 16 ∧ (a.family = 5 ∨ a.family = 9)) ∧
      (∀ i j : Instruction, i.text = j.text ↔ i = j) ∧
      ((decode a).text = "??? " ++ String.ofList (Hex.low 4 a.toNat) ↔ Vacant a.toNat) ∧
      (Vacant a.toNat ↔ ∃ word, decode a = unsupported word) := by
  refine ⟨text_inj.trans (decode_eq_iff a b), fun _ _ => text_inj, ?_, ?_⟩
  · rw [← text_unsupported, text_inj, decode_eq_unsupported_iff]
    exact and_iff_right rfl
  · simp [decode_eq_unsupported_iff]

example : (decode 0x5AB3).text = "SE VA, VB" := by decide

end Instruction
end Chip8
