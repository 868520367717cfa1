import Chip8.Instruction.Effect
import Chip8.Proofs.Instruction.Words

/-!
# Arithmetic and its flag

Five instructions on two registers leave a number and a flag: what a sum carries, that a difference
needs no borrow, the bit that a shift drops. Number and flag together make up the exact result. Both
come of the operands as they were, and the flag is written last, so it stays even where its register
is an operand or takes the number.
-/

namespace Chip8

section Bytes

variable (a b : UInt8)

theorem toNat_toUInt8 (flag : Bool) : flag.toUInt8.toNat = flag.toNat := by
  cases flag <;> rfl

theorem carry_add :
    256 * (decide (256 ≤ a.toNat + b.toNat)).toUInt8.toNat + (a + b).toNat =
      a.toNat + b.toNat := by
  have ha := a.toNat_lt
  have hb := b.toNat_lt
  rw [UInt8.toNat_add, toNat_toUInt8]
  by_cases carries : 256 ≤ a.toNat + b.toNat <;> simp [carries] <;> omega

theorem borrow_sub :
    ((a - b).toNat : Int) =
      a.toNat - b.toNat + 256 * (1 - (decide (b ≤ a)).toUInt8.toNat) := by
  have ha := a.toNat_lt
  have hb := b.toNat_lt
  rw [UInt8.toNat_sub, toNat_toUInt8]
  by_cases fits : b ≤ a
  · have := UInt8.le_iff_toNat_le.mp fits
    simp only [fits, decide_true, Bool.toNat_true]
    omega
  · have := mt UInt8.le_iff_toNat_le.mpr fits
    simp only [fits, decide_false, Bool.toNat_false]
    omega

theorem dropped_shiftRight :
    2 * (a >>> 1).toNat + (decide (a.toNat % 2 = 1)).toUInt8.toNat = a.toNat := by
  have half : (a >>> 1).toNat = a.toNat / 2 := by
    simp [UInt8.toNat_shiftRight, Nat.shiftRight_eq_div_pow]
  rw [half, toNat_toUInt8]
  by_cases odd : a.toNat % 2 = 1 <;> simp [odd] <;> omega

theorem dropped_shiftLeft :
    256 * (decide (128 ≤ a.toNat)).toUInt8.toNat + (a <<< 1).toNat = 2 * a.toNat := by
  have ha := a.toNat_lt
  have twice : (a <<< 1).toNat = 2 * a.toNat % 256 := by
    simp [UInt8.toNat_shiftLeft, Nat.shiftLeft_eq, Nat.mul_comm]
  rw [twice, toNat_toUInt8]
  by_cases high : 128 ≤ a.toNat <;> simp [high] <;> omega

end Bytes

namespace State

/-- The state `t` is `s` past an instruction that put a number into a register and then a flag into
the flag register. -/
structure Flagged (s : State) (x : Reg) (number flag : UInt8) (t : State) : Prop where
  flag_bit : flag = 0 ∨ flag = 1
  reg_flag : t.reg Reg.flag = flag
  reg_result : x ≠ Reg.flag → t.reg x = number
  reg_other : ∀ z, z ≠ x → z ≠ Reg.flag → t.reg z = s.reg z
  rest : t = { s with pc := s.pc + 2, v := t.v }

theorem flagged_setFlagged (x : Reg) (number : UInt8) (flag : Bool) (s : State) :
    s.Flagged x number flag.toUInt8 (s.next.setFlagged x number flag) where
  flag_bit := by cases flag <;> decide
  reg_flag := Cells.get_put_self ..
  reg_result hx := by
    rw [setFlagged, reg_setReg, if_neg hx.symm, reg_setReg, if_pos rfl]
  reg_other z hx hf := by
    rw [setFlagged, reg_setReg, if_neg hf.symm, reg_setReg, if_neg hx.symm]
    rfl
  rest := rfl

end State

namespace Instruction
open Opcode

variable {d : Dialect} {w : WordStream} {s : State} {x : Reg} {op : Opcode} {i : Instruction}

private theorem execute_flagged {number : UInt8} {flag : Bool} (is : decode op = i)
    (sound : i.fault? s = none) (sets : i.apply d w s = s.next.setFlagged x number flag) :
    ∃ t, (decode op).execute d w s = .ok t ∧ s.Flagged x number flag.toUInt8 t := by
  rw [is]
  exact ⟨_, execute_eq_ok_iff.mpr ⟨sound, sets⟩, s.flagged_setFlagged x number flag⟩

private theorem execute_plain {number : UInt8} (is : decode op = i)
    (sound : i.fault? s = none) (sets : i.apply d w s = s.next.setReg x number) :
    ∃ t, (decode op).execute d w s = .ok t ∧ (∀ z, z ≠ x → t.reg z = s.reg z) ∧
      t = { s with pc := s.pc + 2, v := t.v } := by
  rw [is]
  refine ⟨_, execute_eq_ok_iff.mpr ⟨sound, sets⟩, fun z other => ?_, rfl⟩
  rw [State.reg_setReg, if_neg other.symm]
  rfl

/-- The index takes the sum as far as its sixteen bits hold it; the flag takes the sum as it is. -/
private theorem execute_addIndex (d : Dialect) (w : WordStream) (s : State)
    (is : decode op = addIndex x) :
    ∃ t, (decode op).execute d w s = .ok t ∧
      t.i.toNat = (s.i.toNat + (s.reg x).toNat) % 65536 ∧
      t.reg Reg.flag = (if 0xFFF < s.i.toNat + (s.reg x).toNat then 1 else 0) ∧
      (∀ z, z ≠ Reg.flag → t.reg z = s.reg z) ∧
      t = { s with pc := s.pc + 2, v := t.v, i := t.i } := by
  have flag : (decide (Memory.size ≤ s.i.toNat + (s.reg x).toNat)).toUInt8 =
      if 0xFFF < s.i.toNat + (s.reg x).toNat then 1 else 0 := by
    by_cases leaves : Memory.size ≤ s.i.toNat + (s.reg x).toNat
    · rw [decide_eq_true leaves]
      exact (if_pos leaves).symm
    · rw [decide_eq_false leaves]
      exact (if_neg leaves).symm
  rw [is]
  exact ⟨_, execute_eq_ok_iff.mpr ⟨rfl, rfl⟩, UInt16.toNat_add .., (Cells.get_put_self ..).trans flag,
    fun z other => Cells.get_put_of_ne _ _ other.symm, rfl⟩

/-- Number and flag of the arithmetic on two registers make up the exact result of the operands
before it, whichever of the registers are the same. A shift counts as its operand the register that
the dialect says. Adding to the index flags a sum that leaves memory. What else computes with
registers does not set the flag: it changes its own register only. -/
theorem arithmetic_exact (d : Dialect) (w : WordStream) (s : State) (x y : Reg) :
    let a := (s.reg x).toNat
    let b := (s.reg y).toNat
    let source := if d.shiftsY then b else a
    let run (f y n : Nat) := (decode (ofDigits f x y n)).execute d w s
    (∃ t r f, run 8 y 4 = .ok t ∧ s.Flagged x r f t ∧ 256 * f.toNat + r.toNat = a + b) ∧
    (∃ t r f, run 8 y 5 = .ok t ∧ s.Flagged x r f t ∧
      (r.toNat : Int) = a - b + 256 * (1 - f.toNat)) ∧
    (∃ t r f, run 8 y 7 = .ok t ∧ s.Flagged x r f t ∧
      (r.toNat : Int) = b - a + 256 * (1 - f.toNat)) ∧
    (∃ t r f, run 8 y 6 = .ok t ∧ s.Flagged x r f t ∧ 2 * r.toNat + f.toNat = source) ∧
    (∃ t r f, run 8 y 0xE = .ok t ∧ s.Flagged x r f t ∧ 256 * f.toNat + r.toNat = 2 * source) ∧
    (∃ t, run 0xF 1 0xE = .ok t ∧ t.i.toNat = (s.i.toNat + a) % 65536 ∧
      t.reg Reg.flag = (if 0xFFF < s.i.toNat + a then 1 else 0) ∧
      (∀ z, z ≠ Reg.flag → t.reg z = s.reg z) ∧
      t = { s with pc := s.pc + 2, v := t.v, i := t.i }) ∧
    (∀ m n : Nibble, ∃ t, run 7 m n = .ok t ∧ (∀ z, z ≠ x → t.reg z = s.reg z) ∧
      t = { s with pc := s.pc + 2, v := t.v }) ∧
    ∀ n, n < 4 → ∃ t, run 8 y n = .ok t ∧ (∀ z, z ≠ x → t.reg z = s.reg z) ∧
      t = { s with pc := s.pc + 2, v := t.v } := by
  intro a b source run
  have row (n : Nibble) := decode_arithmetic x y n
  have operand : (if d.shiftsY then s.reg y else s.reg x).toNat = source :=
    apply_ite UInt8.toNat ..
  refine ⟨?_, ?_, ?_, ?_, ?_, ?_, fun m n => ?_, fun n plain => ?_⟩
  · obtain ⟨t, ran, flagged⟩ := execute_flagged (row (Nibble.ofNat 4)) rfl rfl
    exact ⟨t, _, _, ran, flagged, carry_add ..⟩
  · obtain ⟨t, ran, flagged⟩ := execute_flagged (row (Nibble.ofNat 5)) rfl rfl
    exact ⟨t, _, _, ran, flagged, borrow_sub ..⟩
  · obtain ⟨t, ran, flagged⟩ := execute_flagged (row (Nibble.ofNat 7)) rfl rfl
    exact ⟨t, _, _, ran, flagged, borrow_sub ..⟩
  · obtain ⟨t, ran, flagged⟩ := execute_flagged (row (Nibble.ofNat 6)) rfl rfl
    exact ⟨t, _, _, ran, flagged, operand ▸ dropped_shiftRight _⟩
  · obtain ⟨t, ran, flagged⟩ := execute_flagged (row (Nibble.ofNat 0xE)) rfl rfl
    exact ⟨t, _, _, ran, flagged, operand ▸ dropped_shiftLeft _⟩
  · exact execute_addIndex d w s (decode_transfer x (Nibble.ofNat 1) (Nibble.ofNat 0xE))
  · have row : decode (ofDigits 7 x m n) = addByte x (ofDigits 7 x m n).low := by
      simp (disch := decide) only [decode, family_ofDigits, x_ofDigits]
    exact execute_plain row rfl rfl
  · obtain rfl | rfl | rfl | rfl : n = 0 ∨ n = 1 ∨ n = 2 ∨ n = 3 := by omega
    · exact execute_plain (row (Nibble.ofNat 0)) rfl rfl
    · exact execute_plain (row (Nibble.ofNat 1)) rfl rfl
    · exact execute_plain (row (Nibble.ofNat 2)) rfl rfl
    · exact execute_plain (row (Nibble.ofNat 3)) rfl rfl

/-- The flag register holds 200 and register 0 holds 100; the index is near its end. -/
def aliased : State :=
  { State.powerOn with v := (State.powerOn.v.put Reg.flag 200).put (Nibble.ofNat 0) 100, i := 0xFFF0 }

/-- The sum into the flag register leaves only its carry there, and so does the sum of the index with
it, which goes round; a combination into the other register leaves the flag as it was. -/
theorem arithmetic_exact_aliased :
    (∃ t, (decode 0x8F04).execute Dialect.common (.ofList []) aliased = .ok t ∧
      t.reg Reg.flag = 1) ∧
    (∃ t, (decode 0xFF1E).execute Dialect.common (.ofList []) aliased = .ok t ∧
      t.i.toNat = 0x00B8 ∧ t.reg Reg.flag = 1) ∧
    3 < 4 ∧ ∃ t, (decode 0x80F3).execute Dialect.common (.ofList []) aliased = .ok t ∧
      t.reg Reg.flag = 200 := by
  obtain ⟨⟨t, r, f, ran, flagged, sum⟩, -, -, -, -, ⟨u, ran', index, flag, -⟩, -⟩ :=
    arithmetic_exact Dialect.common (.ofList []) aliased Reg.flag (Nibble.ofNat 0)
  obtain ⟨-, -, -, -, -, -, -, plain⟩ :=
    arithmetic_exact Dialect.common (.ofList []) aliased (Nibble.ofNat 0) Reg.flag
  obtain ⟨v, ran'', others, -⟩ := plain 3 (by decide)
  refine ⟨⟨t, ran, ?_⟩, ⟨u, ran', index, flag⟩, by decide, v, ran'', others _ (by decide)⟩
  have total : 256 * f.toNat + r.toNat = 300 := sum
  have small := r.toNat_lt
  rcases flagged.flag_bit with rfl | rfl
  · exact absurd total (by simp; omega)
  · exact flagged.reg_flag

end Instruction
end Chip8
