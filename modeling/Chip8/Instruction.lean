import Chip8.State

/-!
# Instructions

The instruction set, the three points of it that interpreters disagree on, and why an instruction
cannot be carried out. A word that means nothing is an instruction too, one that only moves the
program counter on. With every field `false` a dialect is what most programs expect.
-/

namespace Chip8

abbrev Address := Fin 4096

inductive Instruction
  | clear
  | ret
  | jump (target : Address)
  | call (target : Address)
  | skipIfByte (x : Reg) (value : UInt8)
  | skipUnlessByte (x : Reg) (value : UInt8)
  | skipIfEqual (x y : Reg)
  | setByte (x : Reg) (value : UInt8)
  | addByte (x : Reg) (value : UInt8)
  | copy (x y : Reg)
  | bitOr (x y : Reg)
  | bitAnd (x y : Reg)
  | bitXor (x y : Reg)
  | add (x y : Reg)
  | subtract (x y : Reg)
  | halve (x y : Reg)
  | subtractFrom (x y : Reg)
  | double (x y : Reg)
  | skipUnlessEqual (x y : Reg)
  | setIndex (target : Address)
  | jumpFrom (base : Address)
  | random (x : Reg) (mask : UInt8)
  | draw (x y : Reg) (height : Nibble)
  | skipIfHeld (x : Reg)
  | skipUnlessHeld (x : Reg)
  | readDelay (x : Reg)
  | awaitKey (x : Reg)
  | setDelay (x : Reg)
  | setSound (x : Reg)
  | addIndex (x : Reg)
  | pointAtGlyph (x : Reg)
  | storeDigits (x : Reg)
  | storeRegisters (x : Reg)
  | loadRegisters (x : Reg)
  | unsupported (word : UInt16)
  deriving DecidableEq

structure Dialect where
  /-- `8XY6` and `8XYE` shift VY into VX instead of shifting VX in place. -/
  shiftsY : Bool
  /-- `FX55` and `FX65` leave I behind the last byte transferred. -/
  advancesIndex : Bool
  /-- `DXYN` drops what leaves the screen instead of wrapping it around. -/
  clips : Bool
  deriving DecidableEq

def Dialect.common : Dialect := ⟨false, false, false⟩

inductive Fault
  /-- The last byte the instruction needs, at `address`, lies past the end of memory. -/
  | outOfRange (pc : UInt16) (address : Nat)
  | stackOverflow (pc : UInt16)
  | stackUnderflow (pc : UInt16)
  deriving DecidableEq

namespace Fault

def pc : Fault → UInt16
  | outOfRange pc _ | stackOverflow pc | stackUnderflow pc => pc

def addressText (a : Nat) : String := "0x" ++ String.ofList (Hex.padded 3 a)

def message : Fault → String
  | outOfRange pc address =>
    "address " ++ addressText address ++ " out of range (pc " ++ addressText pc.toNat ++ ")"
  | stackOverflow pc => "call stack overflow (pc " ++ addressText pc.toNat ++ ")"
  | stackUnderflow pc => "return with empty call stack (pc " ++ addressText pc.toNat ++ ")"

end Fault
end Chip8
