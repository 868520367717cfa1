import Chip8.Machine.Step
import Chip8.Proofs.Instruction.Words

/-!
# When instructions fault

A return faults on an empty stack, a call on a full one, and any other instruction only where it
reaches past the end of memory. Read off the digits of the word at the program counter, this is a
table of six rows, the first of which is that there is no such word.
-/

namespace Chip8

namespace Instruction

variable {i : Instruction} {s : State}

/-- Returns and calls apart, an instruction faults only where it leaves memory. -/
theorem fault?_eq_reach (notRet : i ≠ ret) (notCall : ∀ target, i ≠ call target) (s : State) :
    i.fault? s =
      if i.reach = 0 ∨ s.i.toNat + i.reach ≤ Memory.size then none
      else some (.outOfRange s.pc (s.i.toNat + i.reach - 1)) := by
  rw [fault?]
  · exact notRet
  · exact notCall

private theorem fault?_of_reach_pos (reaches : 0 < i.reach) (s : State) :
    i.fault? s =
      if s.i.toNat + i.reach ≤ 4096 then none
      else some (.outOfRange s.pc (s.i.toNat + i.reach - 1)) := by
  have size : Memory.size = 4096 := rfl
  have notRet : i ≠ ret := by
    rintro rfl
    exact absurd reaches (Nat.lt_irrefl 0)
  have notCall : ∀ target, i ≠ call target := by
    rintro target rfl
    exact absurd reaches (Nat.lt_irrefl 0)
  simp only [fault?_eq_reach notRet notCall, size, Nat.ne_of_gt reaches, false_or]

theorem fault?_of_past (reaches : 0 < i.reach) (past : 4096 < s.i.toNat + i.reach) :
    i.fault? s = some (.outOfRange s.pc (s.i.toNat + i.reach - 1)) := by
  rw [fault?_of_reach_pos reaches, if_neg (Nat.not_le.mpr past)]

theorem past_of_fault? {f : Fault} (h : i.fault? s = some f) (reaches : 0 < i.reach) :
    4096 < s.i.toNat + i.reach ∧ Fault.outOfRange s.pc (s.i.toNat + i.reach - 1) = f := by
  rw [fault?_of_reach_pos reaches] at h
  split at h
  · exact nomatch h
  · next outside => exact ⟨Nat.not_le.mp outside, Option.some.inj h⟩

theorem reach_of_fault?_eq_none (h : i.fault? s = none) :
    i.reach = 0 ∨ s.i.toNat + i.reach ≤ Memory.size := by
  have size : Memory.size = 4096 := rfl
  refine Decidable.byContradiction fun outside => ?_
  have faulty := fault?_of_past (s := s) (show 0 < i.reach by omega) (by omega)
  exact Option.some_ne_none _ (faulty.symm.trans h)

theorem sp_of_fault?_call {target : Address} {f : Fault} (h : (call target).fault? s = some f) :
    16 ≤ s.sp ∧ Fault.stackOverflow s.pc = f := by
  change (if s.sp < 16 then none else some (Fault.stackOverflow s.pc)) = some f at h
  split at h
  · exact nomatch h
  · next full => exact ⟨Nat.not_lt.mp full, Option.some.inj h⟩

theorem sp_of_fault?_call_eq_none {target : Address} (h : (call target).fault? s = none) :
    s.sp < 16 := by
  refine Decidable.byContradiction fun full => ?_
  simp [fault?, stackDepth, full] at h

theorem sp_of_fault?_ret_eq_none (h : ret.fault? s = none) : 0 < s.sp := by
  refine Nat.pos_of_ne_zero fun empty => ?_
  simp [fault?, empty] at h

end Instruction

theorem Memory.toNat_word (m : Memory) (a : Nat) :
    (m.word a).toNat = 256 * (m.byte a).toNat + (m.byte (a + 1)).toNat := by
  have high : (m.byte a).toNat < 256 := (m.byte a).toNat_lt
  have low : (m.byte (a + 1)).toNat < 256 := (m.byte (a + 1)).toNat_lt
  have shifted : ((m.byte a).toUInt16 <<< 8).toNat = (m.byte a).toNat <<< 8 := by
    rw [UInt16.toNat_shiftLeft, UInt8.toNat_toUInt16]
    have fits : (m.byte a).toNat * 2 ^ 8 < 2 ^ 16 := by omega
    exact Nat.mod_eq_of_lt (by rw [Nat.shiftLeft_eq]; exact fits)
  rw [word, UInt16.toNat_or, shifted, UInt8.toNat_toUInt16,
    ← Nat.shiftLeft_add_eq_or_of_lt low, Nat.shiftLeft_eq, Nat.mul_comm]

/-- The number of the word at the program counter. -/
def State.opcode (s : State) : Nat :=
  256 * (s.memory.byte s.pc.toNat).toNat + (s.memory.byte (s.pc.toNat + 1)).toNat

/-- The faults of a step, by the digits of the word at the program counter. -/
inductive State.Faults (s : State) : Fault → Prop
  | fetch (outside : 0xFFF ≤ s.pc.toNat) : Faults s (.outOfRange s.pc (s.pc.toNat + 1))
  | ret (inside : s.pc.toNat < 0xFFF) (word : s.opcode = 0x00EE) (empty : s.sp = 0) :
    Faults s (.stackUnderflow s.pc)
  | call (inside : s.pc.toNat < 0xFFF) (word : s.opcode / 0x1000 = 2) (full : s.sp = 16) :
    Faults s (.stackOverflow s.pc)
  | draw (inside : s.pc.toNat < 0xFFF) (word : s.opcode / 0x1000 = 0xD)
    (rows : 0 < s.opcode % 0x10) (past : 4096 < s.i.toNat + s.opcode % 0x10) :
    Faults s (.outOfRange s.pc (s.i.toNat + s.opcode % 0x10 - 1))
  | digits (inside : s.pc.toNat < 0xFFF) (family : s.opcode / 0x1000 = 0xF)
    (low : s.opcode % 0x100 = 0x33) (past : 4096 < s.i.toNat + 3) :
    Faults s (.outOfRange s.pc (s.i.toNat + 2))
  | transfer (inside : s.pc.toNat < 0xFFF) (family : s.opcode / 0x1000 = 0xF)
    (low : s.opcode % 0x100 = 0x55 ∨ s.opcode % 0x100 = 0x65)
    (past : 4096 < s.i.toNat + s.opcode / 0x100 % 0x10 + 1) :
    Faults s (.outOfRange s.pc (s.i.toNat + s.opcode / 0x100 % 0x10))

namespace Instruction

variable {n : Nat} {s : State} {f : Fault} {i : Instruction}

theorem eq_ret_of_writtenAs (row : i.WrittenAs n) (h : n = 0x00EE) : i = ret := by
  cases i <;> simp only [WrittenAs, Vacant] at row <;> first | rfl | omega

theorem eq_call_of_writtenAs (row : i.WrittenAs n) (h : n / 0x1000 = 2) :
    ∃ target, i = call target := by
  cases i <;> simp only [WrittenAs, Vacant] at row <;> first | exact ⟨_, rfl⟩ | omega

private theorem eq_draw_of_writtenAs (row : i.WrittenAs n) (h : n / 0x1000 = 0xD) :
    ∃ x y height, i = draw x y height ∧ height.val = n % 0x10 := by
  cases i <;> simp only [WrittenAs, Vacant] at row <;>
    first | exact ⟨_, _, _, rfl, by omega⟩ | omega

private theorem eq_storeDigits_of_writtenAs (row : i.WrittenAs n) (family : n / 0x1000 = 0xF)
    (low : n % 0x100 = 0x33) : ∃ x, i = storeDigits x := by
  cases i <;> simp only [WrittenAs, Vacant] at row <;> first | exact ⟨_, rfl⟩ | omega

private theorem eq_transfer_of_writtenAs (row : i.WrittenAs n) (family : n / 0x1000 = 0xF)
    (low : n % 0x100 = 0x55 ∨ n % 0x100 = 0x65) :
    ∃ x, (i = storeRegisters x ∨ i = loadRegisters x) ∧ x.val = n / 0x100 % 0x10 := by
  cases i <;> simp only [WrittenAs, Vacant] at row <;>
    first | exact ⟨_, .inl rfl, by omega⟩ | exact ⟨_, .inr rfl, by omega⟩ | omega

theorem faults_of_fault? (inside : s.pc.toNat < 0xFFF) (depth : s.sp ≤ 16)
    (row : i.WrittenAs s.opcode) (h : i.fault? s = some f) : s.Faults f := by
  cases i with
  | ret =>
    obtain ⟨empty, rfl⟩ : s.sp = 0 ∧ Fault.stackUnderflow s.pc = f := by simpa [fault?] using h
    exact .ret inside row empty
  | call target =>
    obtain ⟨full, rfl⟩ := sp_of_fault?_call h
    simp only [WrittenAs] at row
    exact .call inside (by omega) (Nat.le_antisymm depth full)
  | draw x y height =>
    have rows : 0 < height.val := by
      refine Nat.pos_of_ne_zero fun none => ?_
      simp [fault?, reach, none] at h
    obtain ⟨past, rfl⟩ := past_of_fault? h rows
    have value : height.val = s.opcode % 0x10 := by
      simp only [WrittenAs] at row
      omega
    simp only [reach, value] at rows past ⊢
    exact .draw inside (by simp only [WrittenAs] at row; omega) rows past
  | storeDigits x =>
    obtain ⟨past, rfl⟩ := past_of_fault? h (Nat.succ_pos 2)
    simp only [WrittenAs] at row
    exact .digits inside (by omega) (by omega) past
  | storeRegisters x =>
    obtain ⟨past, rfl⟩ := past_of_fault? h (Nat.succ_pos x)
    simp only [WrittenAs] at row
    have value : x.val = s.opcode / 0x100 % 0x10 := by omega
    simp only [reach, value] at past ⊢
    exact .transfer inside (by omega) (by omega) past
  | loadRegisters x =>
    obtain ⟨past, rfl⟩ := past_of_fault? h (Nat.succ_pos x)
    simp only [WrittenAs] at row
    have value : x.val = s.opcode / 0x100 % 0x10 := by omega
    simp only [reach, value] at past ⊢
    exact .transfer inside (by omega) (by omega) past
  | _ => exact absurd h.symm (Option.some_ne_none f)

theorem fault?_of_faults (inside : s.pc.toNat < 0xFFF) (row : i.WrittenAs s.opcode)
    (h : s.Faults f) : i.fault? s = some f := by
  cases h with
  | fetch outside => omega
  | ret _ word empty =>
    rw [eq_ret_of_writtenAs row word, fault?, if_pos empty]
  | call _ word full =>
    obtain ⟨target, rfl⟩ := eq_call_of_writtenAs row word
    rw [fault?, full]
    rfl
  | draw _ word rows past =>
    obtain ⟨x, y, height, rfl, value⟩ := eq_draw_of_writtenAs row word
    rw [← value] at rows past ⊢
    exact fault?_of_past rows past
  | digits _ family low past =>
    obtain ⟨x, rfl⟩ := eq_storeDigits_of_writtenAs row family low
    exact fault?_of_past (Nat.succ_pos 2) past
  | transfer _ family low past =>
    rcases eq_transfer_of_writtenAs row family low with ⟨x, rfl | rfl, value⟩
    · rw [← value] at past ⊢
      exact fault?_of_past (Nat.succ_pos x) past
    · rw [← value] at past ⊢
      exact fault?_of_past (Nat.succ_pos x) past

end Instruction
end Chip8
