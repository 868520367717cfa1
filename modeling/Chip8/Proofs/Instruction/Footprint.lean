import Chip8.Instruction.Effect

/-!
# What instructions leave alone

A field of the state is changed by a few instructions and kept by all others; one lemma for each
field says which. No instruction looks at the mark to draw, so a mark set before an instruction is
there behind it and nothing else is different.
-/

namespace Chip8

/-- The state with its picture marked as drawn on. -/
def State.marked (s : State) : State := { s with redraw := true }

namespace Instruction

variable (d : Dialect) (w : WordStream) (i : Instruction) (s : State)

theorem sp_apply :
    (i.apply d w s).sp = match i with
      | ret => s.sp - 1
      | call _ => s.sp + 1
      | _ => s.sp := by
  cases i with
  | loadRegisters x => rw [apply, State.passIndex, State.loadFirst, State.next]
  | _ => rfl

theorem stack_apply :
    (i.apply d w s).stack = match i with
      | call _ => s.stack.setIfInBounds s.sp s.pc
      | _ => s.stack := by
  cases i with
  | loadRegisters x => rw [apply, State.passIndex, State.loadFirst, State.next]
  | _ => rfl

theorem awaiting_apply :
    (i.apply d w s).awaiting = match i with
      | awaitKey x => some x
      | _ => s.awaiting := by
  cases i with
  | loadRegisters x => rw [apply, State.passIndex, State.loadFirst, State.next]
  | _ => rfl

theorem keypad_apply : (i.apply d w s).keypad = s.keypad := by
  cases i with
  | loadRegisters x => rw [apply, State.passIndex, State.loadFirst, State.next]
  | _ => rfl

theorem delay_apply :
    (i.apply d w s).delay = match i with
      | setDelay x => s.reg x
      | _ => s.delay := by
  cases i with
  | loadRegisters x => rw [apply, State.passIndex, State.loadFirst, State.next]
  | _ => rfl

theorem sound_apply :
    (i.apply d w s).sound = match i with
      | setSound x => s.reg x
      | _ => s.sound := by
  cases i with
  | loadRegisters x => rw [apply, State.passIndex, State.loadFirst, State.next]
  | _ => rfl

theorem redraw_apply :
    (i.apply d w s).redraw = match i with
      | clear | draw _ _ _ => true
      | _ => s.redraw := by
  cases i with
  | loadRegisters x => rw [apply, State.passIndex, State.loadFirst, State.next]
  | _ => rfl

theorem memory_apply :
    (i.apply d w s).memory = match i with
      | storeDigits x => s.memory.write s.i.toNat (decimalDigits (s.reg x))
      | storeRegisters x => s.memory.write s.i.toNat (s.v.toList.take (x + 1))
      | _ => s.memory := by
  cases i with
  | loadRegisters x => rw [apply, State.passIndex, State.loadFirst, State.next]
  | _ => rfl

theorem i_apply :
    (i.apply d w s).i = match i with
      | setIndex target => target.val.toUInt16
      | addIndex x => s.i + (s.reg x).toUInt16
      | pointAtGlyph x => (s.reg x).toUInt16 * 5
      | storeRegisters x | loadRegisters x => (s.passIndex d (x + 1)).i
      | _ => s.i := by
  cases i with
  | loadRegisters x =>
    rw [apply, State.passIndex, State.loadFirst, State.next]
    rfl
  | _ => rfl

/-- The registers that an instruction can change. -/
def sets : Instruction → Reg → Prop
  | setByte x _, z | addByte x _, z | copy x _, z | bitOr x _, z | bitAnd x _, z | bitXor x _, z
  | random x _, z | readDelay x, z => z = x
  | add x _, z | subtract x _, z | halve x _, z | subtractFrom x _, z | double x _, z =>
    z = x ∨ z = Reg.flag
  | draw _ _ _, z | addIndex _, z => z = Reg.flag
  | loadRegisters x, z => z ≤ x
  | _, _ => False

theorem reg_apply {i : Instruction} {z : Reg} (other : ¬i.sets z) :
    (i.apply d w s).reg z = s.reg z := by
  have put (x : Reg) (value : UInt8) (t : State) (h : z ≠ x) :
      (t.setReg x value).reg z = t.reg z := by
    rw [State.reg_setReg, if_neg h.symm]
  cases i with
  | setByte | addByte | copy | bitOr | bitAnd | bitXor | random | readDelay =>
    exact put _ _ s.next other
  | add | subtract | halve | subtractFrom | double =>
    obtain ⟨notResult, notFlag⟩ := not_or.mp other
    exact (put _ _ _ notFlag).trans (put _ _ s.next notResult)
  | draw | addIndex => exact put _ _ s.next other
  | loadRegisters x =>
    have behind : x.val + 1 ≤ z.val := Nat.succ_le_of_lt (Nat.lt_of_not_le other)
    have none : (s.atIndex (x + 1))[z.val]? = none := by
      rw [s.getElem?_atIndex, if_neg (Nat.not_lt.mpr behind)]
    rw [apply, State.passIndex, State.loadFirst, State.next]
    simp [State.reg, Cells.get, none]
  | _ => rfl

/-- Whether an instruction skips the one behind it. -/
def skips : Instruction → State → Bool
  | skipIfByte x value, s => s.reg x == value
  | skipUnlessByte x value, s => s.reg x != value
  | skipIfEqual x y, s => s.reg x == s.reg y
  | skipUnlessEqual x y, s => s.reg x != s.reg y
  | skipIfHeld x, s => s.holds (s.reg x)
  | skipUnlessHeld x, s => !s.holds (s.reg x)
  | _, _ => false

theorem pc_apply :
    (i.apply d w s).pc = match i with
      | ret => s.stack[s.sp - 1]?.getD 0 + 2
      | jump target | call target => target.val.toUInt16
      | jumpFrom base => (s.reg (Nibble.ofNat 0)).toUInt16 + base.val.toUInt16
      | _ => if i.skips s then s.pc + 4 else s.pc + 2 := by
  cases i with
  | loadRegisters x =>
    rw [apply, State.passIndex, State.loadFirst, State.next]
    rfl
  | _ => rfl

theorem frame_apply :
    (i.apply d w s).frame = match i with
      | clear => Frame.blank
      | draw x y height =>
        s.frame.xor (Sprite.mask d.clips ((s.reg x).toNat % 64) ((s.reg y).toNat % 32)
          (s.atIndex height))
      | _ => s.frame := by
  cases i with
  | loadRegisters x => rw [apply, State.passIndex, State.loadFirst, State.next]
  | _ => rfl

theorem apply_marked : i.apply d w s.marked = (i.apply d w s).marked := by
  cases i with
  | loadRegisters x => simp only [apply, State.passIndex, State.loadFirst, State.next]; rfl
  | _ => rfl

end Instruction
end Chip8
