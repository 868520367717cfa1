import Chip8.Proofs.Instruction.Faults
import Chip8.Proofs.Instruction.Footprint
import Chip8.Proofs.Machine.Runs
import Chip8.Proofs.Screen.Raster

/-!
# What is in range in every run

The bounds hold each other up. A word was fetched, so the program counter pointed into memory; hence
what a call pushes lies in memory, hence a return comes back to memory, and no instruction can move
the program counter further than a byte past the last address. Rewinding brings old states back, so
the saved states are bounded with the current one.
-/

namespace Chip8

/-- A state whose numbers are in range. -/
structure State.InRange (s : State) : Prop where
  pc_le : s.pc.toNat ≤ 0x10FE
  sp_le : s.sp ≤ 16
  stack_le : ∀ k, (s.stack.get k).toNat ≤ 0xFFE
  cell_le : ∀ x y, s.frame.cell x y = 0 ∨ s.frame.cell x y = 1
  awaiting_le : ∀ x, s.awaiting = some x → x.val ≤ 15

/-- A machine whose numbers are in range, in its past as well. A saved state was about to run an
instruction, so it points at a whole word. -/
structure Machine.InRange (m : Machine) : Prop where
  state : m.state.InRange
  program_le : m.program.length ≤ 3584
  saved_le : m.saved.length ≤ 1024
  saved : ∀ s ∈ m.saved, s.InRange ∧ s.pc.toNat ≤ 0xFFE

namespace State

/-- The picture and the waiting register are bounded by their types. -/
theorem inRange_iff {s : State} : s.InRange ↔
    s.pc.toNat ≤ 0x10FE ∧ s.sp ≤ 16 ∧ ∀ k, (s.stack.get k).toNat ≤ 0xFFE := by
  constructor
  · intro h
    exact ⟨h.pc_le, h.sp_le, h.stack_le⟩
  · rintro ⟨pc, sp, stack⟩
    exact ⟨pc, sp, stack, s.frame.cell_le_one, fun x _ => Nat.le_of_lt_succ x.isLt⟩

theorem InRange.of_eq {s t : State} (h : s.InRange) (pc : t.pc = s.pc) (sp : t.sp = s.sp)
    (stack : t.stack = s.stack) : t.InRange := by
  rw [inRange_iff, pc, sp, stack]
  exact inRange_iff.mp h

theorem InRange.getD_stack_le {s : State} (h : s.InRange) (n : Nat) :
    (s.stack[n]?.getD 0).toNat ≤ 0xFFE := by
  by_cases hn : n < 16
  · have := h.stack_le ⟨n, hn⟩
    simpa [Cells.get, hn] using this
  · simp [hn]

theorem inRange_powerOn : powerOn.InRange := by
  rw [inRange_iff]
  refine ⟨by decide, by decide, fun k => ?_⟩
  simp [powerOn]

end State

namespace Instruction

variable {d : Dialect} {w : WordStream} {i : Instruction} {s : State}

private theorem toNat_add_le (a b : UInt16) : (a + b).toNat ≤ a.toNat + b.toNat := by
  rw [UInt16.toNat_add]
  exact Nat.mod_le ..

private theorem toNat_address_le (a : Address) : a.val.toUInt16.toNat ≤ 0xFFF :=
  (Nat.mod_le ..).trans (Nat.le_of_lt_succ a.isLt)

private theorem toNat_pc_apply_le (h : s.InRange) (inside : s.pc.toNat ≤ 0xFFE) :
    (i.apply d w s).pc.toNat ≤ 0x10FE := by
  have next : (s.pc + 2).toNat ≤ 0x10FE := by
    have : (2 : UInt16).toNat = 2 := rfl
    have := toNat_add_le s.pc 2
    omega
  have skip (b : Bool) : (if b then s.pc + 4 else s.pc + 2).toNat ≤ 0x10FE := by
    have : (4 : UInt16).toNat = 4 := rfl
    have := toNat_add_le s.pc 4
    split <;> omega
  cases i
  case ret =>
    have : (2 : UInt16).toNat = 2 := rfl
    have := h.getD_stack_le (s.sp - 1)
    exact (toNat_add_le ..).trans (by omega)
  case jump target => exact (toNat_address_le target).trans (by decide)
  case call target => exact (toNat_address_le target).trans (by decide)
  case jumpFrom base =>
    have offset : ((s.reg (Nibble.ofNat 0)).toUInt16).toNat ≤ 0xFF :=
      Nat.le_of_lt_succ (UInt8.toNat_lt _)
    have := toNat_address_le base
    exact (toNat_add_le ..).trans (by omega)
  case skipIfByte => exact skip _
  case skipUnlessByte => exact skip _
  case skipIfEqual => exact skip _
  case skipUnlessEqual => exact skip _
  case skipIfHeld => exact skip _
  case skipUnlessHeld => exact skip _
  all_goals exact next

/-- An instruction that can be carried out keeps a state in range that points at a whole word. -/
theorem inRange_apply (h : s.InRange) (inside : s.pc.toNat ≤ 0xFFE) (sound : i.fault? s = none) :
    (i.apply d w s).InRange := by
  refine State.inRange_iff.mpr ⟨toNat_pc_apply_le h inside, ?_, fun k => ?_⟩
  · have := h.sp_le
    rw [sp_apply]
    cases i
    case call target =>
      have := sp_of_fault?_call_eq_none sound
      dsimp only
      omega
    all_goals
      dsimp only
      omega
  · rw [stack_apply]
    cases i
    case call target =>
      simp only [Cells.get, Fin.getElem_fin, Vector.getElem_setIfInBounds]
      split
      · exact inside
      · exact h.stack_le k
    all_goals exact h.stack_le k

end Instruction

namespace Machine

theorem pc_le_of_upcoming {m : Machine} {i : Instruction} (h : m.upcoming = .ok i) :
    m.state.pc.toNat ≤ 0xFFE := by
  have inside := (upcoming_eq_ok_iff.mp h).2.1
  have size : Memory.size = 4096 := rfl
  omega

theorem toNat_pc_add_two_of_upcoming {m : Machine} {i : Instruction} (h : m.upcoming = .ok i) :
    (m.state.pc + 2).toNat = m.state.pc.toNat + 2 := by
  have low := pc_le_of_upcoming h
  have two : (2 : UInt16).toNat = 2 := rfl
  rw [UInt16.toNat_add, two]
  exact Nat.mod_eq_of_lt (by omega)

theorem inRange_new (d : Dialect) (w : WordStream) : (new d w).InRange :=
  ⟨State.inRange_powerOn, by simp [new], by simp, by simp⟩

private theorem InRange.of_eq {m n : Machine} (h : m.InRange) (state : n.state.InRange)
    (program : n.program.length ≤ 3584) (saved : n.saved = m.saved) : n.InRange :=
  ⟨state, program, saved ▸ h.saved_le, saved ▸ h.saved⟩

theorem inRange_run {m : Machine} (h : m.InRange) {i : Instruction} (up : m.upcoming = .ok i) :
    (m.run i).InRange := by
  have inside := pc_le_of_upcoming up
  refine ⟨Instruction.inRange_apply h.state inside (upcoming_eq_ok_iff.mp up).2.2.2,
    h.program_le, length_saved_le _, fun s old => ?_⟩
  rw [saved_run] at old
  rcases List.mem_cons.mp (List.mem_of_mem_take old) with rfl | old
  · exact ⟨h.state, inside⟩
  · exact h.saved s old

private theorem inRange_rewind {m : Machine} (h : m.InRange) : (m.perform .rewind).2.InRange := by
  rcases rewind_cases m with ⟨-, same⟩ | ⟨s, back, -, went, saved, shape⟩
  · rw [same]
    exact h
  · have older : ∀ t ∈ s :: back.saved, t.InRange ∧ t.pc.toNat ≤ 0xFFE := saved ▸ h.saved
    rw [went]
    refine ⟨?_, ?_, length_saved_le _, fun t old => older t (by simp [old])⟩
    · rw [shape]
      exact (older s (by simp)).1.of_eq rfl rfl rfl
    · rw [shape]
      exact h.program_le

private theorem inRange_reset {m : Machine} (h : m.InRange) : m.reset.InRange :=
  ⟨State.inRange_powerOn.of_eq rfl rfl rfl, h.program_le, by simp, by simp⟩

private theorem inRange_load {m : Machine} (h : m.InRange) {o : Operation}
    (ho : (∃ program, o = .load program) ∨ ∃ file, o = .loadRom file) :
    (m.perform o).2.InRange := by
  rcases perform_load_cases m ho with same | ⟨program, fits, loaded⟩
  · rw [same]
    exact h
  · rw [loaded]
    exact h.of_eq (h.state.of_eq rfl rfl rfl) fits rfl

theorem inRange_perform (m : Machine) (o : Operation) (h : m.InRange) :
    (m.perform o).2.InRange := by
  cases o with
  | step =>
    rcases perform_step_cases m with ⟨i, up, stepped⟩ | ⟨o, -, stepped⟩
    · rw [stepped]
      exact inRange_run h up
    · rw [stepped]
      exact h
  | rewind => exact inRange_rewind h
  | reset => exact inRange_reset h
  | load program => exact inRange_load h (.inl ⟨program, rfl⟩)
  | loadRom file => exact inRange_load h (.inr ⟨file, rfl⟩)
  | press k =>
    obtain ⟨keypad, v, awaiting, shape⟩ := press_shape k m
    change (m.press k).InRange
    rw [shape]
    exact h.of_eq (h.state.of_eq rfl rfl rfl) h.program_le rfl
  | release k =>
    obtain ⟨keypad, shape⟩ := release_shape k m
    change (m.release k).InRange
    rw [shape]
    exact h.of_eq (h.state.of_eq rfl rfl rfl) h.program_le rfl
  | tick => exact h.of_eq (h.state.of_eq rfl rfl rfl) h.program_le rfl
  | takeFrame => exact h.of_eq (h.state.of_eq rfl rfl rfl) h.program_le rfl
  | clearRedraw => exact h.of_eq (h.state.of_eq rfl rfl rfl) h.program_le rfl
  | setDialect d => exact h.of_eq h.state h.program_le rfl
  | setRandom w => exact h.of_eq h.state h.program_le rfl

/-- Whatever is done to a new machine, it stays in range. -/
theorem inRange_after (d : Dialect) (w : WordStream) (os : List Operation) :
    ((new d w).after os).InRange :=
  after_induction inRange_perform (inRange_new d w) os

end Machine
end Chip8
