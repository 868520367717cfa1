import Chip8.Instruction.Decode

/-!
# The words of the instruction set

The table of the instruction set, read from the instruction to the number of its word. Decoding
finds the row that a word lies in, so what is asked of an instruction can be asked of the digits of
its word. The two families that skip on two registers have sixteen words for each instruction.
-/

namespace Chip8

namespace Opcode

theorem val_x (op : Opcode) : op.x.val = op.toNat / 0x100 % 16 := rfl

theorem val_y (op : Opcode) : op.y.val = op.toNat / 0x10 % 16 := rfl

theorem val_last (op : Opcode) : op.last.val = op.toNat % 16 := rfl

theorem val_address (op : Opcode) : op.address.val = op.toNat % 0x1000 := rfl

theorem toNat_low (op : Opcode) : op.low.toNat = op.toNat % 0x100 := rfl

/-- The word with these four digits. -/
def ofDigits (f x y n : Nat) : Opcode := (0x1000 * f + 0x100 * x + 0x10 * y + n).toUInt16

section Digits

variable {f : Nat} (hf : f < 16) (x y n : Nibble)
include hf

theorem toNat_ofDigits : (ofDigits f x y n).toNat = 0x1000 * f + 0x100 * x + 0x10 * y + n :=
  Nat.mod_eq_of_lt (by omega)

theorem family_ofDigits : (ofDigits f x y n).family = f := by
  rw [family, toNat_ofDigits hf]
  omega

theorem x_ofDigits : (ofDigits f x y n).x = x := by
  rw [Fin.ext_iff, val_x, toNat_ofDigits hf]
  omega

theorem y_ofDigits : (ofDigits f x y n).y = y := by
  rw [Fin.ext_iff, val_y, toNat_ofDigits hf]
  omega

theorem last_ofDigits : (ofDigits f x y n).last = n := by
  rw [Fin.ext_iff, val_last, toNat_ofDigits hf]
  omega

theorem toNat_low_ofDigits : (ofDigits f x y n).low.toNat = 0x10 * y + n := by
  rw [toNat_low, toNat_ofDigits hf]
  omega

end Digits

end Opcode

namespace Instruction

/-- The numbers of the words that mean nothing. -/
def Vacant (n : Nat) : Prop :=
  (n / 0x1000 = 0 ∧ n ≠ 0x00E0 ∧ n ≠ 0x00EE) ∨
    (n / 0x1000 = 8 ∧ 7 < n % 16 ∧ n % 16 ≠ 0xE) ∨
    (n / 0x1000 = 0xE ∧ n % 0x100 ≠ 0x9E ∧ n % 0x100 ≠ 0xA1) ∨
    (n / 0x1000 = 0xF ∧ n % 0x100 ≠ 0x07 ∧ n % 0x100 ≠ 0x0A ∧ n % 0x100 ≠ 0x15 ∧
      n % 0x100 ≠ 0x18 ∧ n % 0x100 ≠ 0x1E ∧ n % 0x100 ≠ 0x29 ∧ n % 0x100 ≠ 0x33 ∧
      n % 0x100 ≠ 0x55 ∧ n % 0x100 ≠ 0x65)

/-- The number `n` lies in the row of an instruction. A word without a row of its own stands for
itself. -/
def WrittenAs (n : Nat) : Instruction → Prop
  | clear => n = 0x00E0
  | ret => n = 0x00EE
  | jump target => n = 0x1000 + target
  | call target => n = 0x2000 + target
  | skipIfByte x value => n / 0x100 = 0x30 + x ∧ n % 0x100 = value.toNat
  | skipUnlessByte x value => n / 0x100 = 0x40 + x ∧ n % 0x100 = value.toNat
  | skipIfEqual x y => n / 0x10 = 0x500 + 0x10 * x + y
  | setByte x value => n / 0x100 = 0x60 + x ∧ n % 0x100 = value.toNat
  | addByte x value => n / 0x100 = 0x70 + x ∧ n % 0x100 = value.toNat
  | copy x y => n = 0x8000 + 0x100 * x + 0x10 * y
  | bitOr x y => n = 0x8001 + 0x100 * x + 0x10 * y
  | bitAnd x y => n = 0x8002 + 0x100 * x + 0x10 * y
  | bitXor x y => n = 0x8003 + 0x100 * x + 0x10 * y
  | add x y => n = 0x8004 + 0x100 * x + 0x10 * y
  | subtract x y => n = 0x8005 + 0x100 * x + 0x10 * y
  | halve x y => n = 0x8006 + 0x100 * x + 0x10 * y
  | subtractFrom x y => n = 0x8007 + 0x100 * x + 0x10 * y
  | double x y => n = 0x800E + 0x100 * x + 0x10 * y
  | skipUnlessEqual x y => n / 0x10 = 0x900 + 0x10 * x + y
  | setIndex target => n = 0xA000 + target
  | jumpFrom base => n = 0xB000 + base
  | random x mask => n / 0x100 = 0xC0 + x ∧ n % 0x100 = mask.toNat
  | draw x y height => n = 0xD000 + 0x100 * x + 0x10 * y + height
  | skipIfHeld x => n = 0xE09E + 0x100 * x
  | skipUnlessHeld x => n = 0xE0A1 + 0x100 * x
  | readDelay x => n = 0xF007 + 0x100 * x
  | awaitKey x => n = 0xF00A + 0x100 * x
  | setDelay x => n = 0xF015 + 0x100 * x
  | setSound x => n = 0xF018 + 0x100 * x
  | addIndex x => n = 0xF01E + 0x100 * x
  | pointAtGlyph x => n = 0xF029 + 0x100 * x
  | storeDigits x => n = 0xF033 + 0x100 * x
  | storeRegisters x => n = 0xF055 + 0x100 * x
  | loadRegisters x => n = 0xF065 + 0x100 * x
  | unsupported word => n = word.toNat ∧ Vacant n

open Opcode in
private theorem writtenAs_decodeArithmetic {op : Opcode} (h : op.family = 8) :
    (decodeArithmetic op).WrittenAs op.toNat := by
  unfold family at h
  unfold decodeArithmetic
  split <;> simp only [WrittenAs, Vacant, val_x, val_y, val_last, imp_false, true_and] at * <;>
    omega

open Opcode in
private theorem writtenAs_decodeKeys {op : Opcode} (h : op.family = 14) :
    (decodeKeys op).WrittenAs op.toNat := by
  unfold family at h
  unfold decodeKeys
  split <;> simp only [WrittenAs, Vacant, val_x, toNat_low, imp_false, true_and] at * <;> omega

open Opcode in
private theorem writtenAs_decodeTransfer {op : Opcode} (h : op.family = 15) :
    (decodeTransfer op).WrittenAs op.toNat := by
  unfold family at h
  unfold decodeTransfer
  split <;> simp only [WrittenAs, Vacant, val_x, toNat_low, imp_false, true_and] at * <;> omega

private theorem writtenAs_decodePlain {op : Opcode} (h : op.family = 0) :
    (decodePlain op).WrittenAs op.toNat := by
  unfold Opcode.family at h
  unfold decodePlain
  split <;> simp only [WrittenAs, Vacant, imp_false, true_and] at * <;> omega

theorem family_lt (op : Opcode) : op.family < 16 := by
  have := op.toNat_lt
  unfold Opcode.family
  omega

open Opcode in
/-- A word lies in the row of what it decodes to. -/
theorem writtenAs_decode (op : Opcode) : (decode op).WrittenAs op.toNat := by
  have bound := family_lt op
  unfold decode
  split
  case h_1 h => exact writtenAs_decodePlain h
  case h_9 h => exact writtenAs_decodeArithmetic h
  case h_15 h => exact writtenAs_decodeKeys h
  case h_16 =>
    simp only [imp_false] at *
    exact writtenAs_decodeTransfer (show op.family = 15 by omega)
  all_goals
    rename_i h
    simp only [WrittenAs, family, val_x, val_y, val_last, val_address, toNat_low, and_true] at *
    omega

open Opcode in
/-- The rows of the family of arithmetic. -/
theorem decode_arithmetic (x y : Reg) (n : Nibble) :
    decode (ofDigits 8 x y n) = match n.val with
      | 0x0 => copy x y
      | 0x1 => bitOr x y
      | 0x2 => bitAnd x y
      | 0x3 => bitXor x y
      | 0x4 => add x y
      | 0x5 => subtract x y
      | 0x6 => halve x y
      | 0x7 => subtractFrom x y
      | 0xE => double x y
      | _ => unsupported (ofDigits 8 x y n) := by
  have family : (ofDigits 8 x y n).family = 8 := family_ofDigits (by decide) x y n
  have hx : (ofDigits 8 x y n).x = x := x_ofDigits (by decide) x y n
  have hy : (ofDigits 8 x y n).y = y := y_ofDigits (by decide) x y n
  have last : (ofDigits 8 x y n).last = n := last_ofDigits (by decide) x y n
  generalize ofDigits 8 x y n = op at *
  subst hx hy last
  simp only [decode, family]
  rfl

open Opcode in
/-- The rows of the family of timers, keys and transfers. -/
theorem decode_transfer (x m n : Nibble) :
    decode (ofDigits 0xF x m n) = match 0x10 * m.val + n.val with
      | 0x07 => readDelay x
      | 0x0A => awaitKey x
      | 0x15 => setDelay x
      | 0x18 => setSound x
      | 0x1E => addIndex x
      | 0x29 => pointAtGlyph x
      | 0x33 => storeDigits x
      | 0x55 => storeRegisters x
      | 0x65 => loadRegisters x
      | _ => unsupported (ofDigits 0xF x m n) := by
  have family : (ofDigits 0xF x m n).family = 0xF := family_ofDigits (by decide) x m n
  have hx : (ofDigits 0xF x m n).x = x := x_ofDigits (by decide) x m n
  have low : (ofDigits 0xF x m n).low.toNat = 0x10 * m + n := toNat_low_ofDigits (by decide) x m n
  generalize ofDigits 0xF x m n = op at *
  subst hx
  rw [← low]
  simp only [decode, family]
  rfl

open Opcode in
theorem decode_setIndex (target : Address) :
    decode (0xA000 + target.val).toUInt16 = setIndex target := by
  have number : (0xA000 + target.val).toUInt16.toNat = 0xA000 + target :=
    Nat.mod_eq_of_lt (by omega)
  have family : family (0xA000 + target.val).toUInt16 = 0xA := by
    rw [Opcode.family, number]
    omega
  have address : address (0xA000 + target.val).toUInt16 = target := by
    rw [Fin.ext_iff, val_address, number]
    omega
  simp only [decode, family, address]

open Opcode in
theorem decode_draw (x y n : Nibble) : decode (ofDigits 0xD x y n) = draw x y n := by
  have family : (ofDigits 0xD x y n).family = 0xD := family_ofDigits (by decide) x y n
  have hx : (ofDigits 0xD x y n).x = x := x_ofDigits (by decide) x y n
  have hy : (ofDigits 0xD x y n).y = y := y_ofDigits (by decide) x y n
  have last : (ofDigits 0xD x y n).last = n := last_ofDigits (by decide) x y n
  simp only [decode, family, hx, hy, last]

end Instruction
end Chip8
