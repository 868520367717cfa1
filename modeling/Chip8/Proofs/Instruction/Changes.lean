import Chip8.Proofs.Machine.Range

/-!
# What a word changes

Every word has its footprint, read off its digits: which bytes, registers and other fields it may
change, and where the program counter goes behind it. The fields are followed from the word through
the table of instructions to the effect of each, so that nothing lies between the digits and the
state.
-/

namespace Chip8

namespace Opcode

/-- The word lies in a family and has these last two digits. -/
def Picks (op : Opcode) (family low : Nat) : Prop := op.family = family ∧ op.low.toNat = low

/-- The word changes the picture. -/
def Paints (op : Opcode) : Prop := op.toNat = 0x00E0 ∨ op.family = 0xD

/-- The bytes that a word may change. -/
def Stores (op : Opcode) (s : State) (a : Nat) : Prop :=
  (op.Picks 0xF 0x33 ∧ s.i.toNat ≤ a ∧ a < s.i.toNat + 3) ∨
    (op.Picks 0xF 0x55 ∧ s.i.toNat ≤ a ∧ a ≤ s.i.toNat + op.x)

/-- The registers that a word may change. -/
def Sets (op : Opcode) (z : Reg) : Prop :=
  (z = op.x ∧ (op.family = 6 ∨ op.family = 7 ∨ (op.family = 8 ∧ op.last.val < 4) ∨
      op.family = 0xC ∨ op.Picks 0xF 0x07)) ∨
    ((z = op.x ∨ z = Reg.flag) ∧ op.family = 8 ∧
      (4 ≤ op.last.val ∧ op.last.val < 8 ∨ op.last.val = 0xE)) ∨
    (z = Reg.flag ∧ (op.family = 0xD ∨ op.Picks 0xF 0x1E)) ∨
    (z ≤ op.x ∧ op.Picks 0xF 0x65)

def MovesIndex (op : Opcode) (d : Dialect) : Prop :=
  op.family = 0xA ∨ op.Picks 0xF 0x1E ∨ op.Picks 0xF 0x29 ∨
    (d.advancesIndex = true ∧ (op.Picks 0xF 0x55 ∨ op.Picks 0xF 0x65))

/-- The word tests something that holds. -/
def Skips (op : Opcode) (s : State) : Prop :=
  (op.family = 3 ∧ s.reg op.x = op.low) ∨ (op.family = 4 ∧ s.reg op.x ≠ op.low) ∨
    (op.family = 5 ∧ s.reg op.x = s.reg op.y) ∨ (op.family = 9 ∧ s.reg op.x ≠ s.reg op.y) ∨
    (op.Picks 0xE 0x9E ∧ s.holds (s.reg op.x) = true) ∨
    (op.Picks 0xE 0xA1 ∧ s.holds (s.reg op.x) = false)

/-- Where the program counter goes. -/
inductive Leads (op : Opcode) (s : State) : Nat → Prop
  | jump (h : op.family = 1 ∨ op.family = 2) : Leads op s op.address
  | offset (h : op.family = 0xB) : Leads op s (op.address + (s.reg (Nibble.ofNat 0)).toNat)
  | back (h : op.toNat = 0x00EE) : Leads op s ((s.stack[s.sp - 1]?.getD 0).toNat + 2)
  | skip (h : op.Skips s) : Leads op s (s.pc.toNat + 4)
  | next (stays : op.family ≠ 1 ∧ op.family ≠ 2 ∧ op.family ≠ 0xB ∧ op.toNat ≠ 0x00EE)
    (h : ¬op.Skips s) : Leads op s (s.pc.toNat + 2)

/-- The state `t` differs from `s` only in what the word may change. -/
structure Changes (op : Opcode) (d : Dialect) (s t : State) : Prop where
  keypad : t.keypad = s.keypad
  memory : ∀ a, ¬op.Stores s a → t.memory.byte a = s.memory.byte a
  frame : ¬op.Paints → t.frame = s.frame
  redraw : ¬op.Paints → t.redraw = s.redraw
  drawn : op.Paints → t.redraw = true
  stack : ∀ k, ¬(op.family = 2 ∧ k.val = s.sp) → t.stack.get k = s.stack.get k
  called : op.family = 2 → t.sp = s.sp + 1
  returned : op.toNat = 0x00EE → t.sp + 1 = s.sp
  sp : op.family ≠ 2 → op.toNat ≠ 0x00EE → t.sp = s.sp
  delay : ¬op.Picks 0xF 0x15 → t.delay = s.delay
  sound : ¬op.Picks 0xF 0x18 → t.sound = s.sound
  awaiting : ¬op.Picks 0xF 0x0A → t.awaiting = s.awaiting
  i : ¬op.MovesIndex d → t.i = s.i
  v : ∀ z, ¬op.Sets z → t.reg z = s.reg z
  pc : op.Leads s t.pc.toNat

end Opcode

namespace Instruction
open Opcode

private theorem toNat_add_of_fits {a b : UInt16} (fits : a.toNat + b.toNat < 0x10000) :
    (a + b).toNat = a.toNat + b.toNat :=
  (UInt16.toNat_add a b).trans (Nat.mod_eq_of_lt fits)

private theorem toNat_address (a : Address) : a.val.toUInt16.toNat = a :=
  Nat.mod_eq_of_lt (a.isLt.trans (by decide))

section Operands

variable {op : Opcode} {x y : Reg} {value : UInt8} {f : Nat}

private theorem byte_operands
    (row : op.toNat / 0x100 = 0x10 * f + x ∧ op.toNat % 0x100 = value.toNat) :
    op.family = f ∧ x = op.x ∧ value = op.low := by
  refine ⟨?_, Fin.ext ?_, UInt8.toNat_inj.mp ?_⟩
  · rw [family]
    omega
  · rw [val_x]
    omega
  · rw [toNat_low, row.2]

private theorem register_operands (row : op.toNat / 0x10 = 0x100 * f + 0x10 * x + y) :
    op.family = f ∧ x = op.x ∧ y = op.y := by
  refine ⟨?_, Fin.ext ?_, Fin.ext ?_⟩
  · rw [family]
    omega
  · rw [val_x]
    omega
  · rw [val_y]
    omega

private theorem picks_operand (f b : Nat) (two : b < 0x100)
    (row : op.toNat = 0x1000 * f + b + 0x100 * x) : op.Picks f b ∧ x = op.x := by
  refine ⟨⟨?_, ?_⟩, Fin.ext ?_⟩
  · rw [family]
    omega
  · rw [toNat_low]
    omega
  · rw [val_x]
    omega

end Operands

section Row

variable {op : Opcode} {d : Dialect} {w : WordStream} {i : Instruction} {s : State}
  (row : i.WrittenAs op.toNat)
include row

private theorem byte_apply {a : Nat} (other : ¬op.Stores s a) :
    (i.apply d w s).memory.byte a = s.memory.byte a := by
  rw [memory_apply]
  simp only [Stores, Picks, family, toNat_low, val_x] at other
  cases i with
  | storeDigits x =>
    simp only [WrittenAs] at row
    refine Memory.byte_write_of_apart _ ?_
    rw [decimalDigits, List.length_cons, List.length_cons, List.length_cons, List.length_nil]
    omega
  | storeRegisters x =>
    simp only [WrittenAs] at row
    refine Memory.byte_write_of_apart _ ?_
    rw [List.length_take, Vector.length_toList]
    omega
  | _ => rfl

private theorem paints_iff : op.Paints ↔ i = clear ∨ ∃ x y height, i = draw x y height := by
  simp only [Paints, family]
  cases i with
  | clear => exact iff_of_true (.inl row) (.inl rfl)
  | draw x y height =>
    simp only [WrittenAs] at row
    exact iff_of_true (by omega) (.inr ⟨x, y, height, rfl⟩)
  | _ =>
    simp only [WrittenAs, Vacant] at row
    exact iff_of_false (by omega) (by simp)

private theorem sets_of_row {z : Reg} (h : i.sets z) : op.Sets z := by
  simp only [Sets, Picks, family, toNat_low, val_last]
  cases i with
  | setByte x | addByte x | copy x | bitOr x | bitAnd x | bitXor x | random x | readDelay x =>
    simp only [WrittenAs] at row
    have place : z = op.x := (h : z = x).trans (Fin.ext (by rw [val_x]; omega))
    exact .inl ⟨place, by omega⟩
  | add x | subtract x | halve x | subtractFrom x | double x =>
    simp only [WrittenAs] at row
    have place : x = op.x := Fin.ext (by rw [val_x]; omega)
    exact .inr (.inl ⟨place ▸ h, by omega, by omega⟩)
  | draw | addIndex =>
    simp only [WrittenAs] at row
    exact .inr (.inr (.inl ⟨h, by omega⟩))
  | loadRegisters x =>
    simp only [WrittenAs] at row
    have place : x = op.x := Fin.ext (by rw [val_x]; omega)
    exact .inr (.inr (.inr ⟨place ▸ h, by omega, by omega⟩))
  | _ => exact False.elim h

private theorem skips_iff : i.skips s = true ↔ op.Skips s := by
  cases i with
  | skipIfByte x value =>
    obtain ⟨family, rfl, rfl⟩ := byte_operands (f := 3) row
    simp [skips, Skips, Picks, family]
  | skipUnlessByte x value =>
    obtain ⟨family, rfl, rfl⟩ := byte_operands (f := 4) row
    simp [skips, Skips, Picks, family]
  | skipIfEqual x y =>
    obtain ⟨family, rfl, rfl⟩ := register_operands (f := 5) row
    simp [skips, Skips, Picks, family]
  | skipUnlessEqual x y =>
    obtain ⟨family, rfl, rfl⟩ := register_operands (f := 9) row
    simp [skips, Skips, Picks, family]
  | skipIfHeld x =>
    obtain ⟨⟨family, low⟩, rfl⟩ := picks_operand 0xE 0x9E (by decide) row
    simp [skips, Skips, Picks, family, low]
  | skipUnlessHeld x =>
    obtain ⟨⟨family, low⟩, rfl⟩ := picks_operand 0xE 0xA1 (by decide) row
    simp [skips, Skips, Picks, family, low]
  | _ =>
    -- the other rows lie where nothing is tested
    have testless (others : op.family ≠ 3 ∧ op.family ≠ 4 ∧ op.family ≠ 5 ∧ op.family ≠ 9)
        (keys : ¬op.Picks 0xE 0x9E ∧ ¬op.Picks 0xE 0xA1) : ¬op.Skips s := by
      simp [Skips, others, keys]
    simp only [WrittenAs, Vacant] at row
    refine iff_of_false (by simp [skips]) (testless ?_ ?_) <;>
      simp only [family, Picks, toNat_low] <;> omega

private theorem leads_of_row (h : s.InRange) (inside : s.pc.toNat ≤ 0xFFE) :
    op.Leads s (i.apply d w s).pc.toNat := by
  -- no sum wraps: the counter, the stack and every address in a word lie in memory
  have tests := skips_iff (s := s) row
  have two : (2 : UInt16).toNat = 2 := rfl
  have four : (4 : UInt16).toNat = 4 := rfl
  rw [pc_apply]
  cases i with
  | ret =>
    have bounded := h.getD_stack_le (s.sp - 1)
    rw [toNat_add_of_fits (by omega)]
    exact .back row
  | jump target =>
    simp only [WrittenAs] at row
    have place : target.val = op.address := by rw [val_address]; omega
    rw [toNat_address, place]
    exact .jump (by rw [family]; omega)
  | call target =>
    simp only [WrittenAs] at row
    have place : target.val = op.address := by rw [val_address]; omega
    rw [toNat_address, place]
    exact .jump (by rw [family]; omega)
  | jumpFrom base =>
    simp only [WrittenAs] at row
    have place : base.val = op.address := by rw [val_address]; omega
    have offset : (s.reg (Nibble.ofNat 0)).toUInt16.toNat < 0x100 := UInt8.toNat_lt _
    have target : base.val.toUInt16.toNat < 0x1000 := by rw [toNat_address]; exact base.isLt
    rw [toNat_add_of_fits (by omega), toNat_address, place, Nat.add_comm]
    exact .offset (by rw [family]; omega)
  | _ =>
    have stays : op.family ≠ 1 ∧ op.family ≠ 2 ∧ op.family ≠ 0xB ∧ op.toNat ≠ 0x00EE := by
      simp only [WrittenAs, Vacant] at row
      rw [family]
      omega
    dsimp only
    split
    case isTrue holds =>
      rw [toNat_add_of_fits (by omega)]
      exact .skip (tests.mp holds)
    case isFalse fails =>
      rw [toNat_add_of_fits (by omega)]
      exact .next stays (mt tests.mpr fails)

private theorem picture_of_not_paints (other : ¬op.Paints) :
    (i.apply d w s).frame = s.frame ∧ (i.apply d w s).redraw = s.redraw := by
  rw [paints_iff row] at other
  rw [frame_apply, redraw_apply]
  cases i with
  | clear => exact absurd (.inl rfl) other
  | draw x y height => exact absurd (.inr ⟨x, y, height, rfl⟩) other
  | _ => exact ⟨rfl, rfl⟩

private theorem redraw_of_paints (paints : op.Paints) : (i.apply d w s).redraw = true := by
  rw [paints_iff row] at paints
  obtain rfl | ⟨x, y, height, rfl⟩ := paints
  · exact redraw_apply ..
  · exact redraw_apply ..

private theorem get_stack_apply {k : Nibble} (other : ¬(op.family = 2 ∧ k.val = s.sp)) :
    (i.apply d w s).stack.get k = s.stack.get k := by
  rw [stack_apply]
  cases i with
  | call target =>
    simp only [WrittenAs] at row
    have elsewhere : s.sp ≠ k.val := fun top => other ⟨by rw [family]; omega, top.symm⟩
    exact Vector.getElem_setIfInBounds_ne k.isLt elsewhere
  | _ => rfl

private theorem sp_of_stays (notCall : op.family ≠ 2) (notRet : op.toNat ≠ 0x00EE) :
    (i.apply d w s).sp = s.sp := by
  rw [sp_apply]
  cases i with
  | ret => exact absurd row notRet
  | call target =>
    simp only [WrittenAs] at row
    exact absurd (by rw [family]; omega) notCall
  | _ => rfl

private theorem delay_of_not_picks (other : ¬op.Picks 0xF 0x15) :
    (i.apply d w s).delay = s.delay := by
  rw [delay_apply]
  cases i with
  | setDelay x => exact absurd (picks_operand 0xF 0x15 (by decide) row).1 other
  | _ => rfl

private theorem sound_of_not_picks (other : ¬op.Picks 0xF 0x18) :
    (i.apply d w s).sound = s.sound := by
  rw [sound_apply]
  cases i with
  | setSound x => exact absurd (picks_operand 0xF 0x18 (by decide) row).1 other
  | _ => rfl

private theorem awaiting_of_not_picks (other : ¬op.Picks 0xF 0x0A) :
    (i.apply d w s).awaiting = s.awaiting := by
  rw [awaiting_apply]
  cases i with
  | awaitKey x => exact absurd (picks_operand 0xF 0x0A (by decide) row).1 other
  | _ => rfl

private theorem i_of_not_movesIndex (other : ¬op.MovesIndex d) :
    (i.apply d w s).i = s.i := by
  simp only [MovesIndex, Picks, family, toNat_low] at other
  rw [i_apply]
  cases i with
  | setIndex | addIndex | pointAtGlyph =>
    simp only [WrittenAs] at row
    exact absurd (by omega) other
  | storeRegisters x | loadRegisters x =>
    simp only [WrittenAs] at row
    exact if_neg fun advances => other (.inr (.inr (.inr ⟨advances, by omega⟩)))
  | _ => rfl

end Row

/-- A word that is carried out changes what it may change and nothing else, and the program counter
goes where the word leads. -/
theorem execute_changes_only (op : Opcode) {d : Dialect} {w : WordStream} {s t : State}
    (bounded : s.InRange) (inside : s.pc.toNat ≤ 0xFFE)
    (done : (decode op).execute d w s = .ok t) : op.Changes d s t := by
  obtain ⟨sound, rfl⟩ := execute_eq_ok_iff.mp done
  have row := writtenAs_decode op
  exact {
    keypad := keypad_apply ..
    memory := fun a other => byte_apply row other
    frame := fun other => (picture_of_not_paints row other).1
    redraw := fun other => (picture_of_not_paints row other).2
    drawn := redraw_of_paints row
    stack := fun k other => get_stack_apply row other
    called := fun h => by
      obtain ⟨target, is⟩ := eq_call_of_writtenAs row h
      rw [is, sp_apply]
    returned := fun h => by
      rw [eq_ret_of_writtenAs row h] at sound ⊢
      rw [sp_apply]
      exact Nat.sub_add_cancel (sp_of_fault?_ret_eq_none sound)
    sp := sp_of_stays row
    delay := delay_of_not_picks row
    sound := sound_of_not_picks row
    awaiting := awaiting_of_not_picks row
    i := i_of_not_movesIndex row
    v := fun z other => reg_apply _ _ _ (mt (sets_of_row row) other)
    pc := leads_of_row row bounded inside }

/-- The index points behind the program. -/
def pointing : State := { State.powerOn with i := 0x300 }

/-- Three registers are stored: three bytes may change, and no register. -/
theorem execute_changes_only_pointing :
    pointing.InRange ∧ pointing.pc.toNat ≤ 0xFFE ∧ ∃ t,
      (decode 0xF255).execute ⟨false, true, false⟩ (.ofList []) pointing = .ok t ∧
      (∀ a, a < 0x300 ∨ 0x302 < a → t.memory.byte a = pointing.memory.byte a) ∧
      ∀ z, t.reg z = pointing.reg z := by
  have bounded : pointing.InRange := State.inRange_powerOn.of_eq rfl rfl rfl
  have inside : pointing.pc.toNat ≤ 0xFFE := by decide
  have done : (decode 0xF255).execute ⟨false, true, false⟩ (.ofList []) pointing =
      .ok ((decode 0xF255).apply ⟨false, true, false⟩ (.ofList []) pointing) :=
    execute_eq_ok_iff.mpr ⟨by decide, rfl⟩
  have changes := execute_changes_only 0xF255 bounded inside done
  have ⟨family, low, x⟩ : Opcode.family 0xF255 = 0xF ∧ (Opcode.low 0xF255).toNat = 0x55 ∧
      (Opcode.x 0xF255).val = 2 := by decide
  refine ⟨bounded, inside, _, done, fun a apart => changes.memory a ?_,
    fun z => changes.v z (by simp [Sets, Picks, family, low])⟩
  have index : pointing.i.toNat = 0x300 := rfl
  simp only [Stores, Picks, family, low, x, index]
  omega

end Instruction
end Chip8
