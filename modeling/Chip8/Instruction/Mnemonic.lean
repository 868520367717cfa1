import Chip8.Instruction

/-!
# Mnemonics

An instruction as a line of assembly: a name and its operands, separated by commas. Numbers are
hexadecimal with the width of the operand, but for the height of a sprite, which is decimal.
-/

namespace Chip8

inductive Operand
  | register (x : Reg)
  | byte (value : UInt8)
  | address (a : Address)
  | height (n : Nibble)
  | word (op : UInt16)
  /-- A place with a name of its own: the index, a timer, the keypad, the glyphs. -/
  | place (name : String)
  deriving DecidableEq

def Operand.chars : Operand → List Char
  | register x => ['V', Hex.digit x]
  | byte value => '0' :: 'x' :: Hex.low 2 value.toNat
  | address a => '0' :: 'x' :: Hex.low 3 a
  | height n => Nat.toDigits 10 n
  | word op => Hex.low 4 op.toNat
  | place name => name.toList

structure Mnemonic where
  name : String
  operands : List Operand
  deriving DecidableEq

namespace Mnemonic

def chars (m : Mnemonic) : List Char :=
  match m.operands with
  | [] => m.name.toList
  | first :: rest =>
    m.name.toList ++ ' ' :: first.chars ++ rest.flatMap fun o => ',' :: ' ' :: o.chars

def text (m : Mnemonic) : String := String.ofList m.chars

end Mnemonic

namespace Instruction
open Operand

def mnemonic : Instruction → Mnemonic
  | clear => ⟨"CLS", []⟩
  | ret => ⟨"RET", []⟩
  | jump target => ⟨"JP", [address target]⟩
  | call target => ⟨"CALL", [address target]⟩
  | skipIfByte x value => ⟨"SE", [register x, byte value]⟩
  | skipUnlessByte x value => ⟨"SNE", [register x, byte value]⟩
  | skipIfEqual x y => ⟨"SE", [register x, register y]⟩
  | setByte x value => ⟨"LD", [register x, byte value]⟩
  | addByte x value => ⟨"ADD", [register x, byte value]⟩
  | copy x y => ⟨"LD", [register x, register y]⟩
  | bitOr x y => ⟨"OR", [register x, register y]⟩
  | bitAnd x y => ⟨"AND", [register x, register y]⟩
  | bitXor x y => ⟨"XOR", [register x, register y]⟩
  | add x y => ⟨"ADD", [register x, register y]⟩
  | subtract x y => ⟨"SUB", [register x, register y]⟩
  | halve x y => ⟨"SHR", [register x, register y]⟩
  | subtractFrom x y => ⟨"SUBN", [register x, register y]⟩
  | double x y => ⟨"SHL", [register x, register y]⟩
  | skipUnlessEqual x y => ⟨"SNE", [register x, register y]⟩
  | setIndex target => ⟨"LD", [place "I", address target]⟩
  | jumpFrom base => ⟨"JP", [register (Nibble.ofNat 0), address base]⟩
  | random x mask => ⟨"RND", [register x, byte mask]⟩
  | draw x y n => ⟨"DRW", [register x, register y, height n]⟩
  | skipIfHeld x => ⟨"SKP", [register x]⟩
  | skipUnlessHeld x => ⟨"SKNP", [register x]⟩
  | readDelay x => ⟨"LD", [register x, place "DT"]⟩
  | awaitKey x => ⟨"LD", [register x, place "K"]⟩
  | setDelay x => ⟨"LD", [place "DT", register x]⟩
  | setSound x => ⟨"LD", [place "ST", register x]⟩
  | addIndex x => ⟨"ADD", [place "I", register x]⟩
  | pointAtGlyph x => ⟨"LD", [place "F", register x]⟩
  | storeDigits x => ⟨"LD", [place "B", register x]⟩
  | storeRegisters x => ⟨"LD", [place "[I]", register x]⟩
  | loadRegisters x => ⟨"LD", [register x, place "[I]"]⟩
  | unsupported op => ⟨"???", [word op]⟩

def text (i : Instruction) : String := i.mnemonic.text

end Instruction
end Chip8
