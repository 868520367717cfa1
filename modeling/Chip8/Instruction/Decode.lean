import Chip8.Instruction

/-!
# Decoding

A program is made of words of four hexadecimal digits. The first names a family of instructions; in
some families the last digit or the last two pick the instruction, and the digits that are left are
its operands.
-/

namespace Chip8

abbrev Opcode := UInt16

namespace Opcode

def family (op : Opcode) : Nat := op.toNat / 0x1000

def x (op : Opcode) : Reg := Nibble.ofNat (op.toNat / 0x100)

def y (op : Opcode) : Reg := Nibble.ofNat (op.toNat / 0x10)

def last (op : Opcode) : Nibble := Nibble.ofNat op.toNat

def low (op : Opcode) : UInt8 := op.toUInt8

def address (op : Opcode) : Address := ⟨op.toNat % 0x1000, Nat.mod_lt _ (by decide)⟩

end Opcode

namespace Instruction

def decodeArithmetic (op : Opcode) : Instruction :=
  match op.last.val with
  | 0x0 => copy op.x op.y
  | 0x1 => bitOr op.x op.y
  | 0x2 => bitAnd op.x op.y
  | 0x3 => bitXor op.x op.y
  | 0x4 => add op.x op.y
  | 0x5 => subtract op.x op.y
  | 0x6 => halve op.x op.y
  | 0x7 => subtractFrom op.x op.y
  | 0xE => double op.x op.y
  | _ => unsupported op

def decodeKeys (op : Opcode) : Instruction :=
  match op.low.toNat with
  | 0x9E => skipIfHeld op.x
  | 0xA1 => skipUnlessHeld op.x
  | _ => unsupported op

def decodeTransfer (op : Opcode) : Instruction :=
  match op.low.toNat with
  | 0x07 => readDelay op.x
  | 0x0A => awaitKey op.x
  | 0x15 => setDelay op.x
  | 0x18 => setSound op.x
  | 0x1E => addIndex op.x
  | 0x29 => pointAtGlyph op.x
  | 0x33 => storeDigits op.x
  | 0x55 => storeRegisters op.x
  | 0x65 => loadRegisters op.x
  | _ => unsupported op

def decodePlain (op : Opcode) : Instruction :=
  match op.toNat with
  | 0x00E0 => clear
  | 0x00EE => ret
  | _ => unsupported op

def decode (op : Opcode) : Instruction :=
  match op.family with
  | 0x0 => decodePlain op
  | 0x1 => jump op.address
  | 0x2 => call op.address
  | 0x3 => skipIfByte op.x op.low
  | 0x4 => skipUnlessByte op.x op.low
  | 0x5 => skipIfEqual op.x op.y
  | 0x6 => setByte op.x op.low
  | 0x7 => addByte op.x op.low
  | 0x8 => decodeArithmetic op
  | 0x9 => skipUnlessEqual op.x op.y
  | 0xA => setIndex op.address
  | 0xB => jumpFrom op.address
  | 0xC => random op.x op.low
  | 0xD => draw op.x op.y op.last
  | 0xE => decodeKeys op
  | _ => decodeTransfer op

end Instruction
end Chip8
