import Chip8.Proofs.Session.Keys

/-!
# Events that are ignored

The repeats of a key that is held, the key that only stops the waiting between passes, keys without
a meaning, and the two controls that act when they go down, when they come up again: these events
leave the console as it is, and each of the others changes some console. So nothing can tell two
sessions apart whose passes heed the same events.
-/

namespace Chip8

namespace Keyboard

def space : Keycode := ' '.toNat

def escape : Keycode := 27

/-- A key that is not on the keypad and controls nothing. -/
def unused (c : Keycode) : Bool := (key? c).isNone && (control? c).isNone

end Keyboard

namespace Session

namespace Event
open Keyboard

/-- The events that are ignored. -/
def ignored : Event → Bool
  | .down code again => again || code = space || unused code
  | .up code => code = space || code = functionKey 5 || code = escape || unused code
  | .quit => false
  | .other => true

/-- What is left of the events of a pass without those that are ignored. -/
def heeded (events : List Event) : List Event := events.filter fun e => !e.ignored

variable {code : Keycode}

theorem ignored_down_iff : (down code false).ignored = true ↔
    key? code = none ∧ (control? code = none ∨ control? code = some .fastForward) := by
  have place : code = space ↔ control? code = some .fastForward := by
    simp [control?_eq_some_iff, controls, space]
  have unkeyed : code = space → key? code = none := by
    rintro rfl
    decide
  simp only [ignored, unused, Bool.false_or, Bool.or_eq_true, Bool.and_eq_true, decide_eq_true_eq,
    Option.isNone_iff_eq_none]
  constructor
  · rintro (is | ⟨noKey, noControl⟩)
    · exact ⟨unkeyed is, .inr (place.mp is)⟩
    · exact ⟨noKey, .inl noControl⟩
  · rintro ⟨noKey, noControl | waits⟩
    · exact .inr ⟨noKey, noControl⟩
    · exact .inl (place.mpr waits)

theorem ignored_up_iff : (up code).ignored = true ↔
    key? code = none ∧ control? code ≠ some .rewind := by
  have listed : code = space ∨ code = functionKey 5 ∨ code = escape →
      key? code = none ∧ control? code ≠ some .rewind := by
    rintro (rfl | rfl | rfl) <;> decide
  simp only [ignored, unused, Bool.or_eq_true, Bool.and_eq_true, decide_eq_true_eq,
    Option.isNone_iff_eq_none, or_assoc]
  constructor
  · rintro (is | is | is | ⟨noKey, noControl⟩)
    · exact listed (.inl is)
    · exact listed (.inr (.inl is))
    · exact listed (.inr (.inr is))
    · exact ⟨noKey, by simp [noControl]⟩
  · rintro ⟨noKey, notRewind⟩
    cases control : control? code with
    | none => exact .inr (.inr (.inr ⟨noKey, rfl⟩))
    | some c =>
      -- of the controls, only rewinding stops when its key comes up
      have place := control?_eq_some_iff.mp control
      simp only [controls, List.mem_cons, Prod.mk.injEq, List.not_mem_nil, or_false] at place
      rcases place with ⟨is, -⟩ | ⟨-, rfl⟩ | ⟨is, -⟩ | ⟨is, -⟩
      · exact .inl is
      · exact absurd control notRewind
      · exact .inr (.inl is)
      · exact .inr (.inr (.inl is))

end Event

namespace Console

variable {k : Console} {e : Event}

theorem handle_of_ignored (ignored : e.ignored = true) (k : Console) : k.handle e = .ok k := by
  cases e with
  | down code again =>
    cases again with
    | false =>
      obtain ⟨noKey, noControl | waits⟩ := Event.ignored_down_iff.mp ignored
      · simp only [handle, keyDown, noKey, noControl]
      · simp only [handle, keyDown, noKey, waits]
    | true => rfl
  | up code =>
    obtain ⟨noKey, notRewind⟩ := Event.ignored_up_iff.mp ignored
    have same : k.keyUp code = k := by
      simp only [keyUp, noKey]
      split
      · next rewind => exact absurd rewind notRewind
      all_goals rfl
    exact congrArg Except.ok same
  | quit => exact absurd ignored (by decide)
  | other => rfl

/-- A console whose switches are off and whose keys are up. -/
def idle : Console := start (Machine.new Dialect.common (.ofList [])) []

/-- A console that goes back and has all keys down. -/
def busy : Console :=
  { idle with
    machine := { idle.machine with
      state := { State.powerOn with keypad := Vector.replicate 16 true } }
    rewinding := true }

private theorem ignored_down_of_idle {code : Keycode} (same : idle.keyDown code = .ok idle) :
    (Event.down code false).ignored = true := by
  unfold keyDown at same
  split at same
  · next key _ =>
    have up : idle.machine.state.keypad.get key = false := Cells.get_replicate ..
    have down : (idle.machine.press key.val.toUInt8).state.keypad.get key = true := by
      rw [Machine.keypad_press, Cells.get_put_self]
    have kept := congrArg (fun k => k.machine.state.keypad.get key) (Except.ok.inj same)
    exact absurd (down.symm.trans (kept.trans up)) (by decide)
  · next noKey =>
    refine Event.ignored_down_iff.mpr ⟨noKey, ?_⟩
    split at same
    · exact absurd (congrArg Console.rewinding (Except.ok.inj same)) (by decide)
    · exact absurd (congrArg Console.transcript (Except.ok.inj same)) (by decide)
    · exact nomatch same
    · next waits => exact .inr waits
    · next noControl => exact .inl noControl

private theorem ignored_up_of_busy {code : Keycode} (same : busy.keyUp code = busy) :
    (Event.up code).ignored = true := by
  unfold keyUp at same
  split at same
  · next key _ =>
    have down : busy.machine.state.keypad.get key = true := Cells.get_replicate ..
    have up : (busy.machine.release key.val.toUInt8).state.keypad.get key = false := by
      rw [Machine.keypad_release, Cells.get_put_self]
    have kept := congrArg (fun k => k.machine.state.keypad.get key) same
    exact absurd (up.symm.trans (kept.trans down)) (by decide)
  · next noKey =>
    refine Event.ignored_up_iff.mpr ⟨noKey, fun rewind => ?_⟩
    simp only [rewind] at same
    exact absurd (congrArg Console.rewinding same) (by decide)

/-- The ignored events are those that never change a console. -/
theorem ignored_iff_handle {e : Event} : e.ignored = true ↔ ∀ k : Console, k.handle e = .ok k := by
  constructor
  · exact handle_of_ignored
  · intro still
    cases e with
    | down code again =>
      cases again with
      | false => exact ignored_down_of_idle (still idle)
      | true => rfl
    | up code => exact ignored_up_of_busy (Except.ok.inj (still busy))
    | quit => exact nomatch still idle
    | other => rfl

theorem handleAll_heeded (events : List Event) (k : Console) :
    k.handleAll (Event.heeded events) = k.handleAll events := by
  induction events generalizing k with
  | nil => rfl
  | cons e events ih =>
    change _ = (k.handle e >>= Console.handleAll events)
    by_cases ignored : e.ignored = true
    · rw [Event.heeded, List.filter_cons_of_neg (by simp [ignored]), handle_of_ignored ignored]
      exact ih k
    · rw [Event.heeded, List.filter_cons_of_pos (by simp [ignored])]
      exact congrArg (k.handle e >>= ·) (funext fun k => ih k)

theorem run_heeded (steps : Nat) (outage : Outage) (k : Console) (events : List Event) :
    k.run steps outage (Event.heeded events) = k.run steps outage events := by
  rw [run, handleAll_heeded, run]

theorem runAll_heeded (steps : Nat) (outage : Outage) (passes : List (List Event)) (k : Console) :
    k.runAll steps outage (passes.map Event.heeded) = k.runAll steps outage passes := by
  induction passes generalizing k with
  | nil => rfl
  | cons events passes ih =>
    change (k.run steps outage (Event.heeded events) >>=
        runAll steps outage (passes.map Event.heeded)) =
      (k.run steps outage events >>= runAll steps outage passes)
    rw [run_heeded]
    exact congrArg (k.run steps outage events >>= ·) (funext fun k => ih k)

theorem play_heeded (s : Settings) (outage : Outage) (passes : List (List Event)) (k : Console) :
    k.play s outage (passes.map Event.heeded) = k.play s outage passes := by
  have runs : runAll s.stepsPerPass outage (passes.map Event.heeded) =
      runAll s.stepsPerPass outage passes := funext fun k => runAll_heeded ..
  rw [play, runs, play]

end Console

variable {passes passes' : List (List Event)}

/-- Putting in and taking out ignored events keeps what the passes heed. Two sessions that heed the
same end in the same way, with the same transcript and on the same machine. -/
theorem play_eq_of_heeded (s : Settings) (unseeded : WordStream) (file : Except IoError Reader)
    (outage : Outage) (same : passes.map Event.heeded = passes'.map Event.heeded) :
    play s unseeded file outage passes = play s unseeded file outage passes' ∧
      ∀ k : Console, k.play s outage passes = k.play s outage passes' := by
  have stops (k : Console) : k.play s outage passes = k.play s outage passes' := by
    rw [← Console.play_heeded, same, Console.play_heeded]
  refine ⟨?_, stops⟩
  unfold play
  split
  · rfl
  · rw [stops]

/-- A key that is pressed in one pass and let go in the next. -/
def tapped : List (List Event) := [[.press (Nibble.ofNat 5)], [.lift (Nibble.ofNat 5)]]

open Keyboard in
/-- The same among repeats of the controls, the space bar, the mouse, and keys that come up. -/
def pestered : List (List Event) :=
  [[.down escape true, .press (Nibble.ofNat 5), .down (functionKey 5) true, .down space false,
      .other],
    [.up escape, .down 8 true, .down 'p'.toNat false, .lift (Nibble.ofNat 5), .up (functionKey 5),
      .up 'p'.toNat, .up space]]

/-- On a program that jumps to itself. -/
theorem play_eq_of_heeded_pestered :
    tapped.map Event.heeded = pestered.map Event.heeded ∧
      play slowest (.ofList []) (.ok (.ofBytes [0x12, 0x00])) .none tapped =
        play slowest (.ofList []) (.ok (.ofBytes [0x12, 0x00])) .none pestered := by
  have same : tapped.map Event.heeded = pestered.map Event.heeded := by decide
  exact ⟨same, (play_eq_of_heeded slowest (.ofList []) _ .none same).1⟩

end Session
end Chip8
