import Chip8.Proofs.Machine.Range
import Chip8.Proofs.Screen.Plot

/-!
# Instructions with every sum and every place guarded

The same instructions over numbers that may not overflow and blocks that may not be left. A sum, a
product or a step down that its width cannot hold has no result; neither has a place outside the
registers, the stack, the keys, memory or the screen. On a state in range, at a whole word, an
instruction that does not fault has a result, and it is the one that the plain instruction has.
-/

namespace Chip8

/-- `a + b`, if sixteen bits hold it; the other guards of arithmetic are alike. -/
def sum16? (a b : UInt16) : Option UInt16 :=
  if a.toNat + b.toNat < 0x10000 then some (a + b) else none

def product16? (a b : UInt16) : Option UInt16 :=
  if a.toNat * b.toNat < 0x10000 then some (a * b) else none

def sum8? (a b : Nat) : Option Nat := if a + b < 0x100 then some (a + b) else none

def difference? (a b : Nat) : Option Nat := if b ≤ a then some (a - b) else none

namespace State

def reg? (x : Nat) (s : State) : Option UInt8 := s.v[x]?

def setReg? (x : Nat) (value : UInt8) (s : State) : Option State :=
  if x < 16 then some { s with v := s.v.setIfInBounds x value } else none

def held? (k : Nat) (s : State) : Option Bool := s.keypad[k]?

def setHeld? (k : Nat) (held : Bool) (s : State) : Option State :=
  if k < 16 then some { s with keypad := s.keypad.setIfInBounds k held } else none

def firstRegs? (n : Nat) (s : State) : Option (List UInt8) :=
  if n ≤ 16 then some (s.v.toList.take n) else none

def setFirstRegs? (n : Nat) (bytes : List UInt8) (s : State) : Option State :=
  if n ≤ 16 ∧ bytes.length = n then some (s.loadFirst bytes) else none

def bytes? (start n : Nat) (s : State) : Option (List UInt8) :=
  if start + n ≤ Memory.size then some (s.memory.read start n) else none

/-- The `n` bytes from `start` on replaced by as many: a copy of any other length is refused. -/
def setBytes? (start n : Nat) (bytes : List UInt8) (s : State) : Option State :=
  if start + n ≤ Memory.size ∧ bytes.length = n then
    some { s with memory := s.memory.write start bytes }
  else none

def next? (s : State) : Option State := (sum16? s.pc 2).map fun pc => { s with pc }

def nextOrSkip? (skip : Bool) (s : State) : Option State :=
  (sum16? s.pc (if skip then 4 else 2)).map fun pc => { s with pc }

def assign? (x : Nat) (value : UInt8) (s : State) : Option State := do
  let s ← s.next?
  s.setReg? x value

def assignFlagged? (x : Nat) (value : UInt8) (flag : Bool) (s : State) : Option State := do
  let s ← s.assign? x value
  s.setReg? 15 flag.toUInt8

def combine? (x y : Nat) (f : UInt8 → UInt8 → UInt8) (s : State) : Option State := do
  let a ← s.reg? x
  let b ← s.reg? y
  s.assign? x (f a b)

def combineFlagged? (x y : Nat) (f : UInt8 → UInt8 → UInt8) (flag : UInt8 → UInt8 → Bool)
    (s : State) : Option State := do
  let a ← s.reg? x
  let b ← s.reg? y
  s.assignFlagged? x (f a b) (flag a b)

def compare? (x y : Nat) (skip : UInt8 → UInt8 → Bool) (s : State) : Option State := do
  let a ← s.reg? x
  let b ← s.reg? y
  s.nextOrSkip? (skip a b)

def holds? (x : Nat) (s : State) : Option Bool := do
  let k ← s.reg? x
  s.held? (k.toNat % 16)

def shift? (x source : Nat) (f : UInt8 → UInt8) (flag : UInt8 → Bool) (s : State) :
    Option State := do
  let a ← s.reg? source
  s.assignFlagged? x (f a) (flag a)

def passedIndex? (d : Dialect) (n : Nat) (s : State) : Option UInt16 :=
  if d.advancesIndex then sum16? s.i n.toUInt16 else some s.i

/-- Moves on with a sprite drawn on the screen dot by dot. -/
def draw? (clip : Bool) (x y height : Nat) (s : State) : Option State := do
  let left ← s.reg? x
  let top ← s.reg? y
  -- without rows nothing is read, so the index may point anywhere
  let sprite ← s.bytes? (if height = 0 then 0 else s.i.toNat) height
  let canvas ← (Sprite.dots clip (left.toNat % 64) (top.toNat % 32) sprite).foldlM Canvas.plot?
    ⟨s.frame.cells, 0⟩
  let frame ← Frame.ofCells? canvas.raster
  let s ← s.next?
  let s ← s.setReg? 15 canvas.hit
  some { s with frame, redraw := true }

end State

namespace Instruction

/-- The state after an instruction that does not fault, if every sum and place is good. -/
def effect? (d : Dialect) (chance : WordStream) (i : Instruction) (s : State) : Option State :=
  match i with
  | clear => do
    let s ← s.next?
    some { s with frame := Frame.blank, redraw := true }
  | ret => do
    let sp ← difference? s.sp 1
    let top ← s.stack[sp]?
    let pc ← sum16? top 2
    some { s with pc, sp }
  | jump target => some { s with pc := target.val.toUInt16 }
  | call target => do
    let _ ← s.stack[s.sp]?
    let sp ← sum8? s.sp 1
    some { s with pc := target.val.toUInt16, sp, stack := s.stack.setIfInBounds s.sp s.pc }
  | skipIfByte x value => s.compare? x x fun a _ => a == value
  | skipUnlessByte x value => s.compare? x x fun a _ => a != value
  | skipIfEqual x y => s.compare? x y (· == ·)
  | skipUnlessEqual x y => s.compare? x y (· != ·)
  | setByte x value => s.assign? x value
  | addByte x value => s.combine? x x fun a _ => a + value
  | copy x y => s.combine? x y fun _ b => b
  | bitOr x y => s.combine? x y (· ||| ·)
  | bitAnd x y => s.combine? x y (· &&& ·)
  | bitXor x y => s.combine? x y (· ^^^ ·)
  | add x y => s.combineFlagged? x y (· + ·) fun a b => 256 ≤ a.toNat + b.toNat
  | subtract x y => s.combineFlagged? x y (· - ·) fun a b => b ≤ a
  | subtractFrom x y => s.combineFlagged? x y (fun a b => b - a) fun a b => a ≤ b
  | halve x y => s.shift? x (if d.shiftsY then y else x) (· >>> 1) fun a => a.toNat % 2 = 1
  | double x y => s.shift? x (if d.shiftsY then y else x) (· <<< 1) fun a => 128 ≤ a.toNat
  | setIndex target => do
    let s ← s.next?
    some { s with i := target.val.toUInt16 }
  | jumpFrom base => do
    let offset ← s.reg? 0
    let pc ← sum16? offset.toUInt16 base.val.toUInt16
    some { s with pc }
  | random x mask => s.assign? x (chance.byte &&& mask)
  | draw x y height => s.draw? d.clips x y height
  | skipIfHeld x => do
    let held ← s.holds? x
    s.nextOrSkip? held
  | skipUnlessHeld x => do
    let held ← s.holds? x
    s.nextOrSkip? !held
  | readDelay x => s.assign? x s.delay
  | awaitKey x => do
    let s ← s.next?
    some { s with awaiting := some x }
  | setDelay x => do
    let delay ← s.reg? x
    let s ← s.next?
    some { s with delay }
  | setSound x => do
    let sound ← s.reg? x
    let s ← s.next?
    some { s with sound }
  | addIndex x => do
    let a ← s.reg? x
    let t ← s.next?
    let t ← t.setReg? 15 (decide (Memory.size ≤ s.i.toNat + a.toNat)).toUInt8
    some { t with i := s.i + a.toUInt16 }
  | pointAtGlyph x => do
    let digit ← s.reg? x
    let i ← product16? digit.toUInt16 5
    let s ← s.next?
    some { s with i }
  | storeDigits x => do
    let value ← s.reg? x
    let s ← s.next?
    s.setBytes? s.i.toNat 3 (decimalDigits value)
  | storeRegisters x => do
    let bytes ← s.firstRegs? (x + 1)
    let i ← s.passedIndex? d (x + 1)
    let s ← s.next?
    let s ← s.setBytes? s.i.toNat (x + 1) bytes
    some { s with i }
  | loadRegisters x => do
    let bytes ← s.bytes? s.i.toNat (x + 1)
    let i ← s.passedIndex? d (x + 1)
    let s ← s.next?
    let s ← s.setFirstRegs? (x + 1) bytes
    some { s with i }
  | unsupported _ => s.next?

def obstacle? (i : Instruction) (s : State) : Option (Option Fault) :=
  match i with
  | ret | call _ => some (i.fault? s)
  | _ =>
    if i.reach = 0 ∨ s.i.toNat + i.reach ≤ Memory.size then some none
    else
      -- the fault names the last place that is asked for
      (difference? (s.i.toNat + i.reach) 1).map fun last => some (.outOfRange s.pc last)

def execute? (d : Dialect) (chance : WordStream) (i : Instruction) (s : State) :
    Option (Except Fault State) := do
  match ← i.obstacle? s with
  | some f => some (.error f)
  | none => (i.effect? d chance s).map .ok

end Instruction

namespace State

theorem sum16?_eq {a b : UInt16} (h : a.toNat + b.toNat < 0x10000) : sum16? a b = some (a + b) :=
  if_pos h

@[simp]
theorem reg?_val (s : State) (x : Reg) : s.reg? x.val = some (s.reg x) := by
  simp [reg?, reg, Cells.get]

private theorem setIfInBounds_val {α : Type} (c : Cells α) (x : Nibble) (a : α) :
    c.setIfInBounds x.val a = c.put x a := by
  simp [Cells.put, Vector.setIfInBounds, Vector.set, Array.setIfInBounds]

@[simp]
theorem setReg?_val (s : State) (x : Reg) (value : UInt8) :
    s.setReg? x.val value = some (s.setReg x value) := by
  simp [setReg?, setReg, setIfInBounds_val]

@[simp]
theorem setReg?_flag (s : State) (value : UInt8) :
    s.setReg? 15 value = some (s.setReg Reg.flag value) :=
  setReg?_val s Reg.flag value

@[simp]
theorem held?_val (s : State) (k : Nibble) : s.held? k.val = some (s.keypad.get k) := by
  simp [held?, Cells.get]

@[simp]
theorem setHeld?_val (s : State) (k : Nibble) (held : Bool) :
    s.setHeld? k.val held = some { s with keypad := s.keypad.put k held } := by
  simp [setHeld?, setIfInBounds_val]

@[simp]
theorem holds?_eq (s : State) (x : Reg) : s.holds? x.val = some (s.holds (s.reg x)) := by
  have held := s.held?_val (Nibble.ofNat (s.reg x).toNat)
  simpa [holds?, holds] using held

@[simp]
theorem firstRegs?_eq (s : State) (x : Reg) :
    s.firstRegs? (x.val + 1) = some (s.v.toList.take (x.val + 1)) :=
  if_pos x.isLt

theorem bytes?_eq {s : State} {start n : Nat} (h : start + n ≤ Memory.size) :
    s.bytes? start n = some (s.memory.read start n) :=
  if_pos h

theorem passedIndex?_eq {s : State} {n : Nat} (d : Dialect) (hn : n ≤ 16)
    (h : s.i.toNat + n ≤ Memory.size) : s.passedIndex? d n = some (s.passIndex d n).i := by
  have small : n.toUInt16.toNat = n := Nat.mod_eq_of_lt (by omega)
  have fits : s.i.toNat + n.toUInt16.toNat < 0x10000 := by
    have size : Memory.size = 4096 := rfl
    omega
  cases moves : d.advancesIndex <;> simp [passedIndex?, passIndex, moves, sum16?_eq fits]

section WholeWord

variable {s : State} (inside : s.pc.toNat ≤ 0xFFE)
include inside

theorem next?_eq : s.next? = some s.next := by
  have two : (2 : UInt16).toNat = 2 := rfl
  rw [next?, sum16?_eq (by omega)]
  rfl

/-- The guard fails at the very end of the counter. -/
example : next? { powerOn with pc := 0xFFFE } = none := rfl

theorem nextOrSkip?_eq (skip : Bool) : s.nextOrSkip? skip = some (s.nextOrSkip skip) := by
  have two : (2 : UInt16).toNat = 2 := rfl
  have four : (4 : UInt16).toNat = 4 := rfl
  cases skip
  · rw [nextOrSkip?, sum16?_eq (by simp; omega)]
    rfl
  · rw [nextOrSkip?, sum16?_eq (by simp; omega)]
    rfl

theorem assign?_eq (x : Reg) (value : UInt8) :
    s.assign? x.val value = some (s.next.setReg x value) := by
  simp [assign?, next?_eq inside]

theorem assignFlagged?_eq (x : Reg) (value : UInt8) (flag : Bool) :
    s.assignFlagged? x.val value flag = some (s.next.setFlagged x value flag) := by
  simp [assignFlagged?, assign?_eq inside, setFlagged]

theorem combine?_eq (x y : Reg) (f : UInt8 → UInt8 → UInt8) :
    s.combine? x.val y.val f = some (s.next.setReg x (f (s.reg x) (s.reg y))) := by
  simp [combine?, assign?_eq inside]

theorem combineFlagged?_eq (x y : Reg) (f : UInt8 → UInt8 → UInt8)
    (flag : UInt8 → UInt8 → Bool) :
    s.combineFlagged? x.val y.val f flag =
      some (s.next.setFlagged x (f (s.reg x) (s.reg y)) (flag (s.reg x) (s.reg y))) := by
  simp [combineFlagged?, assignFlagged?_eq inside]

theorem compare?_eq (x y : Reg) (skip : UInt8 → UInt8 → Bool) :
    s.compare? x.val y.val skip = some (s.nextOrSkip (skip (s.reg x) (s.reg y))) := by
  simp [compare?, nextOrSkip?_eq inside]

theorem shift?_eq (x source : Reg) (f : UInt8 → UInt8) (flag : UInt8 → Bool) :
    s.shift? x.val source.val f flag =
      some (s.next.setFlagged x (f (s.reg source)) (flag (s.reg source))) := by
  simp [shift?, assignFlagged?_eq inside]

theorem draw?_eq (clip : Bool) (x y height : Nibble)
    (reach : height.val = 0 ∨ s.i.toNat + height.val ≤ Memory.size) :
    s.draw? clip x.val y.val height.val = some (s.next.drawMask
      (Sprite.mask clip ((s.reg x).toNat % 64) ((s.reg y).toNat % 32) (s.atIndex height.val))) := by
  have sprite : s.bytes? (if height.val = 0 then 0 else s.i.toNat) height.val =
      some (s.atIndex height.val) := by
    rcases reach with empty | fits
    · rw [empty]
      rfl
    · split
      · next empty =>
        rw [empty]
        rfl
      · exact bytes?_eq fits
  have drawn := Canvas.foldlM_plot?_dots clip (s.left_lt x) (s.top_lt y) (s.length_atIndex_le height)
    s.frame
  rw [Canvas.ofFrame] at drawn
  simp only [draw?, reg?_val, sprite, Option.bind_eq_bind, Option.bind_some]
  rw [show (0 : UInt8) = false.toUInt8 from rfl, drawn]
  simp only [Canvas.ofFrame, Option.bind_some, Frame.ofCells?_cells, next?_eq inside, setReg?_flag]
  rfl

end WholeWord

end State

namespace Instruction

variable {s : State}

private theorem effect?_ret (d : Dialect) (w : WordStream) (h : s.InRange)
    (sound : ret.fault? s = none) : ret.effect? d w s = some (ret.apply d w s) := by
  have depth : 1 ≤ s.sp := sp_of_fault?_ret_eq_none sound
  have inStack : s.sp - 1 < 16 := by
    have := h.sp_le
    omega
  have top : s.stack[s.sp - 1]? = some (s.stack[s.sp - 1]?.getD 0) := by simp [inStack]
  have two : (2 : UInt16).toNat = 2 := rfl
  have low := h.getD_stack_le (s.sp - 1)
  simp only [effect?, difference?, if_pos depth, Option.bind_eq_bind, Option.bind_some]
  rw [top, Option.bind_some, State.sum16?_eq (by omega)]
  rfl

private theorem effect?_call (d : Dialect) (w : WordStream) (target : Address)
    (sound : (call target).fault? s = none) :
    (call target).effect? d w s = some ((call target).apply d w s) := by
  have inStack := sp_of_fault?_call_eq_none sound
  have fits : s.sp + 1 < 0x100 := by omega
  have slot : s.stack[s.sp]? = some s.stack[s.sp] := by simp [inStack]
  simp only [effect?, slot, sum8?, if_pos fits, Option.bind_eq_bind, Option.bind_some]
  rfl

private theorem effect?_jumpFrom (d : Dialect) (w : WordStream) (base : Address) :
    (jumpFrom base).effect? d w s = some ((jumpFrom base).apply d w s) := by
  have offset : ((s.reg (Nibble.ofNat 0)).toUInt16).toNat ≤ 0xFF :=
    Nat.le_of_lt_succ (UInt8.toNat_lt _)
  have target : base.val.toUInt16.toNat ≤ 0xFFF :=
    (Nat.mod_le ..).trans (Nat.le_of_lt_succ base.isLt)
  have first : s.reg? 0 = some (s.reg (Nibble.ofNat 0)) := State.reg?_val s (Nibble.ofNat 0)
  simp only [effect?, first, Option.bind_eq_bind, Option.bind_some]
  rw [State.sum16?_eq (by omega)]
  rfl

private theorem product16?_five (b : UInt8) : product16? b.toUInt16 5 = some (b.toUInt16 * 5) := by
  have small : b.toUInt16.toNat < 0x100 := b.toNat_lt
  have fits : b.toUInt16.toNat * 5 < 0x10000 := by omega
  exact if_pos fits

/-- An instruction that does not fault meets every guard, and does what it does without them. -/
theorem effect?_eq_apply (d : Dialect) (w : WordStream) {i : Instruction} (h : s.InRange)
    (inside : s.pc.toNat ≤ 0xFFE) (sound : i.fault? s = none) :
    i.effect? d w s = some (i.apply d w s) := by
  have next := State.next?_eq inside
  cases i with
  | ret => exact effect?_ret d w h sound
  | call target => exact effect?_call d w target sound
  | jump target => rfl
  | jumpFrom base => exact effect?_jumpFrom d w base
  | draw x y height =>
    have fits := reach_of_fault?_eq_none sound
    exact State.draw?_eq inside d.clips x y height fits
  | skipIfByte x value => exact State.compare?_eq inside x x _
  | skipUnlessByte x value => exact State.compare?_eq inside x x _
  | skipIfEqual x y => exact State.compare?_eq inside x y _
  | skipUnlessEqual x y => exact State.compare?_eq inside x y _
  | skipIfHeld x => simp [effect?, State.nextOrSkip?_eq inside, apply]
  | skipUnlessHeld x => simp [effect?, State.nextOrSkip?_eq inside, apply]
  | setByte x value => exact State.assign?_eq inside x value
  | addByte x value => exact State.combine?_eq inside x x _
  | copy x y => exact State.combine?_eq inside x y _
  | bitOr x y => exact State.combine?_eq inside x y _
  | bitAnd x y => exact State.combine?_eq inside x y _
  | bitXor x y => exact State.combine?_eq inside x y _
  | add x y => exact State.combineFlagged?_eq inside x y _ _
  | subtract x y => exact State.combineFlagged?_eq inside x y _ _
  | subtractFrom x y => exact State.combineFlagged?_eq inside x y _ _
  | halve x y =>
    cases shifts : d.shiftsY <;> simp [effect?, apply, shifts, State.shift?_eq inside]
  | double x y =>
    cases shifts : d.shiftsY <;> simp [effect?, apply, shifts, State.shift?_eq inside]
  | random x mask => exact State.assign?_eq inside x _
  | readDelay x => exact State.assign?_eq inside x _
  | clear => simp [effect?, apply, next]
  | setIndex target => simp [effect?, apply, next]
  | awaitKey x => simp [effect?, apply, next]
  | setDelay x => simp [effect?, apply, next]
  | setSound x => simp [effect?, apply, next]
  | addIndex x => simp [effect?, apply, next]
  | pointAtGlyph x => simp [effect?, apply, next, product16?_five]
  | storeDigits x =>
    have fits := reach_of_fault?_eq_none sound
    have write : s.next.setBytes? s.i.toNat 3 (decimalDigits (s.reg x)) =
        some (s.next.storeAtIndex (decimalDigits (s.reg x))) :=
      if_pos ⟨fits.resolve_left (Nat.succ_ne_zero 2), rfl⟩
    simp only [effect?, next, State.reg?_val, Option.bind_eq_bind, Option.bind_some]
    rw [show s.next.i = s.i from rfl, write]
    rfl
  | storeRegisters x =>
    have fits := (reach_of_fault?_eq_none sound).resolve_left (Nat.succ_ne_zero x)
    have length : (s.v.toList.take (x.val + 1)).length = x.val + 1 := by
      rw [List.length_take, Vector.length_toList]
      omega
    have write : s.next.setBytes? s.i.toNat (x.val + 1) (s.v.toList.take (x.val + 1)) =
        some (s.next.storeAtIndex (s.v.toList.take (x.val + 1))) :=
      if_pos ⟨fits, length⟩
    simp only [effect?, next, State.firstRegs?_eq, State.passedIndex?_eq d x.isLt fits,
      Option.bind_eq_bind, Option.bind_some]
    rw [show s.next.i = s.i from rfl, write]
    rfl
  | loadRegisters x =>
    have fits := (reach_of_fault?_eq_none sound).resolve_left (Nat.succ_ne_zero x)
    have read : s.bytes? s.i.toNat (x.val + 1) = some (s.atIndex (x.val + 1)) :=
      State.bytes?_eq fits
    have write : s.next.setFirstRegs? (x.val + 1) (s.atIndex (x.val + 1)) =
        some (s.next.loadFirst (s.atIndex (x.val + 1))) :=
      if_pos ⟨x.isLt, Memory.length_read ..⟩
    simp only [effect?, next, read, State.passedIndex?_eq d x.isLt fits, write,
      Option.bind_eq_bind, Option.bind_some]
    rfl
  | unsupported op => exact next

private theorem obstacle?_eq (i : Instruction) (s : State) : i.obstacle? s = some (i.fault? s) := by
  unfold obstacle?
  split
  · rfl
  · rfl
  · next notRet notCall =>
    rw [fault?_eq_reach notRet notCall]
    split
    · rfl
    · next outside =>
      have some : i.reach ≠ 0 := fun none => outside (.inl none)
      rw [difference?, if_pos (by omega)]
      rfl

theorem execute?_eq (d : Dialect) (w : WordStream) (i : Instruction) (h : s.InRange)
    (inside : s.pc.toNat ≤ 0xFFE) : i.execute? d w s = some (i.execute d w s) := by
  rw [execute?, obstacle?_eq, execute]
  cases sound : i.fault? s with
  | some f => rfl
  | none => simp [effect?_eq_apply d w h inside sound]

end Instruction

end Chip8
