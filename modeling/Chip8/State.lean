import Chip8.Memory
import Chip8.Nibble
import Chip8.Screen.Frame

/-!
# The state of the machine

Everything that a running program can see or change, and what rewinding restores.
-/

namespace Chip8

abbrev Reg := Nibble

def Reg.flag : Reg := Nibble.ofNat 0xF

abbrev Registers := Cells UInt8

/-- Which of the keys 0 to F are held down. -/
abbrev Keypad := Cells Bool

/-- The glyphs of the digits 0 to F, five rows each, of which the left half is used. -/
def glyphs : List UInt8 := [
  0xF0, 0x90, 0x90, 0x90, 0xF0,
  0x20, 0x60, 0x20, 0x20, 0x70,
  0xF0, 0x10, 0xF0, 0x80, 0xF0,
  0xF0, 0x10, 0xF0, 0x10, 0xF0,
  0x90, 0x90, 0xF0, 0x10, 0x10,
  0xF0, 0x80, 0xF0, 0x10, 0xF0,
  0xF0, 0x80, 0xF0, 0x90, 0xF0,
  0xF0, 0x10, 0x20, 0x40, 0x40,
  0xF0, 0x90, 0xF0, 0x90, 0xF0,
  0xF0, 0x90, 0xF0, 0x10, 0xF0,
  0xF0, 0x90, 0xF0, 0x90, 0x90,
  0xE0, 0x90, 0xE0, 0x90, 0xE0,
  0xF0, 0x80, 0x80, 0x80, 0xF0,
  0xE0, 0x90, 0x90, 0x90, 0xE0,
  0xF0, 0x80, 0xF0, 0x80, 0xF0,
  0xF0, 0x80, 0xF0, 0x80, 0x80]

def programStart : Nat := 0x200

def stackDepth : Nat := 16

structure State where
  v : Registers
  i : UInt16
  pc : UInt16
  /-- The cells of the stack, of which the first `sp` are in use. -/
  stack : Cells UInt16
  sp : Nat
  delay : UInt8
  sound : UInt8
  memory : Memory
  frame : Frame
  /-- Whether the picture has been drawn on since it was last taken. -/
  redraw : Bool
  keypad : Keypad
  /-- The register that waits for a key; nothing runs while there is one. -/
  awaiting : Option Reg
  deriving DecidableEq

namespace State

def powerOn : State where
  v := Vector.replicate 16 0
  i := 0
  pc := 0x200
  stack := Vector.replicate 16 0
  sp := 0
  delay := 0
  sound := 0
  memory := Memory.zero.write 0 glyphs
  frame := Frame.blank
  redraw := false
  keypad := Vector.replicate 16 false
  awaiting := none

def install (program : List UInt8) (s : State) : State :=
  { s with memory := s.memory.write programStart program }

def reg (s : State) (x : Reg) : UInt8 := s.v.get x

/-- Whether the key that the low half of `k` names is held down. -/
def holds (s : State) (k : UInt8) : Bool :=
  s.keypad.get (Nibble.ofNat k.toNat)

end State
end Chip8
