import Chip8.Nibble

/-!
# The keyboard

The keypad of sixteen keys lies on the four left columns of letters and digits; four more keys
control the session. A key is known by its code: for printable keys the code of their character.
-/

namespace Chip8

abbrev Keycode := Nat

inductive Control
  /-- While held, do not wait between passes. -/
  | fastForward
  | rewind
  | reset
  | quit
  deriving DecidableEq

namespace Keyboard

/-- The keys on which the keypad keys 0 to F lie: row by row, `123C 456D 789E A0BF` on
`1234 qwer asdf zxcv`. -/
def layout : List Char :=
  ['x', '1', '2', '3', 'q', 'w', 'e', 'a', 's', 'd', 'z', 'c', '4', 'r', 'f', 'v']

def code (k : Nibble) : Keycode := (layout[k.val]?.getD ' ').toNat

def key? (c : Keycode) : Option Nibble := (List.finRange 16).find? fun k => code k = c

def functionKey (n : Nat) : Keycode := 0x40000039 + n

def controls : List (Keycode × Control) :=
  [(' '.toNat, .fastForward), (8, .rewind), (functionKey 5, .reset), (27, .quit)]

def control? (c : Keycode) : Option Control := controls.lookup c

theorem code_inj {j k : Nibble} : code j = code k ↔ j = k := by
  have h : ∀ j k : Nibble, code j = code k → j = k := by decide
  exact ⟨h j k, congrArg code⟩

theorem key?_eq_some_iff {c : Keycode} {k : Nibble} : key? c = some k ↔ code k = c := by
  constructor
  · intro h
    simpa using List.find?_some h
  · have h : ∀ k : Nibble, key? (code k) = some k := by decide
    rintro rfl
    exact h k

theorem control?_eq_some_iff {c : Keycode} {x : Control} :
    control? c = some x ↔ (c, x) ∈ controls := by
  constructor
  · intro h
    obtain ⟨before, after, place, -⟩ := List.lookup_eq_some_iff.mp h
    rw [place]
    exact List.mem_append_right before (List.mem_cons_self ..)
  · intro h
    simp only [controls, List.mem_cons, Prod.mk.injEq, List.not_mem_nil, or_false] at h
    rcases h with ⟨rfl, rfl⟩ | ⟨rfl, rfl⟩ | ⟨rfl, rfl⟩ | ⟨rfl, rfl⟩ <;> rfl

end Keyboard
end Chip8
