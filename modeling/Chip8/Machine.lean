import Chip8.Instruction
import Chip8.Machine.History
import Chip8.Random
import Chip8.Rom

/-!
# The machine

A state together with what surrounds it: the states it can be rewound to, the program it can be
reset to, the dialect, and the source of chance. Rewinding does not change the last three. A program
is copied to its place in memory as a whole or not at all; of a file one byte more than the limit is
read, which is enough to tell that it is too large.
-/

namespace Chip8

def savedLimit : Nat := 1024

structure Machine where
  state : State
  history : History State savedLimit
  program : List UInt8
  dialect : Dialect
  random : WordStream

namespace Machine

/-- The states that the machine can be rewound to, the newest first. -/
def saved (m : Machine) : List State := m.history.entries

def new (dialect : Dialect) (random : WordStream) : Machine :=
  ⟨State.powerOn, .empty, [], dialect, random⟩

def countDown (t : UInt8) : UInt8 := if t = 0 then 0 else t - 1

def tick (m : Machine) : Machine :=
  { m with state := { m.state with delay := countDown m.state.delay
                                   sound := countDown m.state.sound } }

def sounding (m : Machine) : Bool := m.state.sound != 0

def key? (k : UInt8) : Option Nibble :=
  if k.toNat < 16 then some (Nibble.ofNat k.toNat) else none

/-- Presses a key. A key that was not held down ends the wait for a key. -/
def press (k : UInt8) (m : Machine) : Machine :=
  match key? k with
  | none => m
  | some key =>
    let s := { m.state with keypad := m.state.keypad.put key true }
    match m.state.awaiting with
    | some x =>
      if m.state.keypad.get key then { m with state := s }
      else { m with state := { s with v := s.v.put x k, awaiting := none } }
    | none => { m with state := s }

def release (k : UInt8) (m : Machine) : Machine :=
  match key? k with
  | none => m
  | some key => { m with state := { m.state with keypad := m.state.keypad.put key false } }

def load (program : List UInt8) (m : Machine) : Except RomError Machine :=
  if program.length ≤ romLimit then .ok { m with state := m.state.install program, program }
  else .error (.tooLarge program.length)

/-- Loads the program that a file holds; also gives its size. -/
def loadRom (file : Reader) (m : Machine) : Except RomError (Nat × Machine) :=
  match file.readUpTo (romLimit + 1) with
  | .error e => .error (.io e)
  | .ok program => (m.load program).map (program.length, ·)

/-- Switches the machine off and on, with its program in memory. -/
def reset (m : Machine) : Machine :=
  { m with state := State.powerOn.install m.program, history := .empty }

/-- Goes back to the newest saved state, if there is one. The keys stay as they are now, so that
none is left held down, and the picture is to be drawn again. -/
def rewind? (m : Machine) : Option Machine :=
  match m.history.pop? with
  | none => none
  | some (s, rest) =>
    some { m with state := { s with keypad := m.state.keypad, redraw := true }, history := rest }

/-- Goes back by up to `n` states: how many it went, and the machine there. -/
def rewindUpTo : Nat → Machine → Nat × Machine
  | 0, m => (0, m)
  | n + 1, m => match m.rewind? with
    | none => (0, m)
    | some back => let (gone, m) := rewindUpTo n back; (gone + 1, m)

def clearRedraw (m : Machine) : Machine := { m with state := { m.state with redraw := false } }

/-- The picture, if it has been drawn on since it was last taken. -/
def pendingFrame? (m : Machine) : Option Frame :=
  if m.state.redraw then some m.state.frame else none

@[simp]
theorem saved_new (dialect : Dialect) (random : WordStream) : (new dialect random).saved = [] := rfl

@[simp]
theorem saved_reset (m : Machine) : m.reset.saved = [] := rfl

theorem length_saved_le (m : Machine) : m.saved.length ≤ savedLimit := m.history.length_entries_le

theorem rewind?_eq_none_iff (m : Machine) : m.rewind? = none ↔ m.saved = [] := by
  rw [saved, ← History.pop?_eq_none_iff, rewind?]
  cases m.history.pop? <;> simp

theorem saved_of_rewind? {m back : Machine} (rewound : m.rewind? = some back) :
    ∃ s, m.saved = s :: back.saved ∧
      back.state = { s with keypad := m.state.keypad, redraw := true } := by
  rw [rewind?] at rewound
  split at rewound
  · exact nomatch rewound
  · next s rest popped =>
    cases rewound
    exact ⟨s, History.entries_of_pop? popped, rfl⟩

theorem toNat_countDown (t : UInt8) : (countDown t).toNat = t.toNat - 1 := by
  rw [countDown]
  split
  · next h => simp [h]
  · next h =>
    have : 1 ≤ t.toNat := Nat.one_le_iff_ne_zero.mpr fun h0 => h (UInt8.toNat_inj.mp h0)
    rw [UInt8.toNat_sub_of_le t 1 (UInt8.le_iff_toNat_le.mpr this)]
    rfl

end Machine
end Chip8
