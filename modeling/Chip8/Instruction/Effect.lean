import Chip8.Instruction
import Chip8.Random
import Chip8.Screen.Sprite

/-!
# What instructions do

Carrying out an instruction is split in two: `fault?` looks whether it can be carried out at all,
and `apply` says what it does when it can. `execute` joins them, so that an instruction that faults
has changed nothing. Only `random` looks at the source of chance that is given to `apply`, and
`draws` says how many words an instruction takes from it.
-/

namespace Chip8

namespace State

def next (s : State) : State := { s with pc := s.pc + 2 }

/-- The state past the instruction, and past the one behind it when `skip` holds. -/
def nextOrSkip (skip : Bool) (s : State) : State :=
  { s with pc := if skip then s.pc + 4 else s.pc + 2 }

def setReg (x : Reg) (value : UInt8) (s : State) : State := { s with v := s.v.put x value }

theorem reg_setReg (x z : Reg) (value : UInt8) (s : State) :
    (s.setReg x value).reg z = if x = z then value else s.reg z :=
  Cells.get_put ..

/-- The state with a register set and the flag set behind it, so that the flag stays when both are
the same register. -/
def setFlagged (x : Reg) (value : UInt8) (flag : Bool) (s : State) : State :=
  (s.setReg x value).setReg Reg.flag flag.toUInt8

def atIndex (n : Nat) (s : State) : List UInt8 := s.memory.read s.i.toNat n

theorem getElem?_atIndex (n : Nat) (s : State) (k : Nat) :
    (s.atIndex n)[k]? = if k < n then some (s.memory.byte (s.i.toNat + k)) else none := by
  split
  · next inside => exact Memory.getElem?_read s.memory _ inside
  · next outside =>
    rw [List.getElem?_eq_none]
    rw [atIndex, Memory.length_read]
    exact Nat.not_lt.mp outside

/-- Sprites start on the screen. -/
theorem left_lt (s : State) (x : Reg) : (s.reg x).toNat % 64 < 64 := Nat.mod_lt _ (by decide)

theorem top_lt (s : State) (y : Reg) : (s.reg y).toNat % 32 < 32 := Nat.mod_lt _ (by decide)

theorem length_atIndex_le (height : Nibble) (s : State) : (s.atIndex height).length ≤ 32 := by
  rw [atIndex, Memory.length_read]
  omega

def storeAtIndex (bytes : List UInt8) (s : State) : State :=
  { s with memory := s.memory.write s.i.toNat bytes }

/-- The state with the index behind a transfer of `n` bytes, where the dialect moves it. -/
def passIndex (d : Dialect) (n : Nat) (s : State) : State :=
  { s with i := if d.advancesIndex then s.i + n.toUInt16 else s.i }

def loadFirst (bytes : List UInt8) (s : State) : State :=
  { s with v := Vector.ofFn fun k => bytes[k.val]?.getD (s.reg k) }

/-- The state with a picture combined into the screen; the flag tells whether a lit pixel met one
that was lit already, and so went dark. -/
def drawMask (mask : Frame) (s : State) : State :=
  { s.setReg Reg.flag (s.frame.meets mask).toUInt8 with frame := s.frame.xor mask, redraw := true }

end State

def decimalDigits (b : UInt8) : List UInt8 := [b / 100, b / 10 % 10, b % 10]

namespace Instruction

/-- How many bytes from the index on an instruction reads or writes. -/
def reach : Instruction → Nat
  | draw _ _ height => height
  | storeDigits _ => 3
  | storeRegisters x | loadRegisters x => x + 1
  | _ => 0

def draws : Instruction → Nat
  | random _ _ => 1
  | _ => 0

def fault? (i : Instruction) (s : State) : Option Fault :=
  match i with
  | ret => if s.sp = 0 then some (.stackUnderflow s.pc) else none
  | call _ => if s.sp < stackDepth then none else some (.stackOverflow s.pc)
  | _ =>
    if i.reach = 0 ∨ s.i.toNat + i.reach ≤ Memory.size then none
    else some (.outOfRange s.pc (s.i.toNat + i.reach - 1))

def apply (d : Dialect) (chance : WordStream) (i : Instruction) (s : State) : State :=
  match i with
  | clear => { s.next with frame := Frame.blank, redraw := true }
  | ret => { s with pc := s.stack[s.sp - 1]?.getD 0 + 2, sp := s.sp - 1 }
  | jump target => { s with pc := target.val.toUInt16 }
  | call target =>
    { s with pc := target.val.toUInt16, sp := s.sp + 1, stack := s.stack.setIfInBounds s.sp s.pc }
  | skipIfByte x value => s.nextOrSkip (s.reg x == value)
  | skipUnlessByte x value => s.nextOrSkip (s.reg x != value)
  | skipIfEqual x y => s.nextOrSkip (s.reg x == s.reg y)
  | skipUnlessEqual x y => s.nextOrSkip (s.reg x != s.reg y)
  | setByte x value => s.next.setReg x value
  | addByte x value => s.next.setReg x (s.reg x + value)
  | copy x y => s.next.setReg x (s.reg y)
  | bitOr x y => s.next.setReg x (s.reg x ||| s.reg y)
  | bitAnd x y => s.next.setReg x (s.reg x &&& s.reg y)
  | bitXor x y => s.next.setReg x (s.reg x ^^^ s.reg y)
  | add x y => s.next.setFlagged x (s.reg x + s.reg y) (256 ≤ (s.reg x).toNat + (s.reg y).toNat)
  | subtract x y => s.next.setFlagged x (s.reg x - s.reg y) (s.reg y ≤ s.reg x)
  | subtractFrom x y => s.next.setFlagged x (s.reg y - s.reg x) (s.reg x ≤ s.reg y)
  | halve x y =>
    let source := if d.shiftsY then s.reg y else s.reg x
    s.next.setFlagged x (source >>> 1) (source.toNat % 2 = 1)
  | double x y =>
    let source := if d.shiftsY then s.reg y else s.reg x
    s.next.setFlagged x (source <<< 1) (128 ≤ source.toNat)
  | setIndex target => { s.next with i := target.val.toUInt16 }
  | jumpFrom base => { s with pc := (s.reg (Nibble.ofNat 0)).toUInt16 + base.val.toUInt16 }
  | random x mask => s.next.setReg x (chance.byte &&& mask)
  | draw x y height =>
    s.next.drawMask
      (Sprite.mask d.clips ((s.reg x).toNat % 64) ((s.reg y).toNat % 32) (s.atIndex height))
  | skipIfHeld x => s.nextOrSkip (s.holds (s.reg x))
  | skipUnlessHeld x => s.nextOrSkip !(s.holds (s.reg x))
  | readDelay x => s.next.setReg x s.delay
  | awaitKey x => { s.next with awaiting := some x }
  | setDelay x => { s.next with delay := s.reg x }
  | setSound x => { s.next with sound := s.reg x }
  | addIndex x =>
    { s.next.setReg Reg.flag (decide (Memory.size ≤ s.i.toNat + (s.reg x).toNat)).toUInt8 with
      i := s.i + (s.reg x).toUInt16 }
  | pointAtGlyph x => { s.next with i := (s.reg x).toUInt16 * 5 }
  | storeDigits x => s.next.storeAtIndex (decimalDigits (s.reg x))
  | storeRegisters x => (s.next.storeAtIndex (s.v.toList.take (x + 1))).passIndex d (x + 1)
  | loadRegisters x => (s.next.loadFirst (s.atIndex (x + 1))).passIndex d (x + 1)
  | unsupported _ => s.next

def execute (d : Dialect) (chance : WordStream) (i : Instruction) (s : State) :
    Except Fault State :=
  match i.fault? s with
  | some f => .error f
  | none => .ok (i.apply d chance s)

theorem execute_eq_ok_iff {d : Dialect} {chance : WordStream} {i : Instruction} {s t : State} :
    i.execute d chance s = .ok t ↔ i.fault? s = none ∧ i.apply d chance s = t := by
  unfold execute
  split <;> simp [*]

end Instruction
end Chip8
