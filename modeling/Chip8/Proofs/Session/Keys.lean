import Chip8.Proofs.Instruction.Footprint
import Chip8.Proofs.Session.Passes

/-!
# Which keys are held

A key of the keypad is held down if the last event that concerns it is that it went down. The events
that concern a key are its own, down and up, and a reset, which lets go of all keys. Saved states
have keys of their own, but what a rewind brings back keeps the keys that are held at the time.
-/

namespace Chip8

namespace Machine

variable {m : Machine}

theorem key?_val : ∀ key : Nibble, key? key.val.toUInt8 = some key := by decide

theorem keypad_press (key : Nibble) (m : Machine) :
    (m.press key.val.toUInt8).state.keypad = m.state.keypad.put key true := by
  simp only [press, key?_val]
  split
  · split <;> rfl
  · rfl

theorem keypad_release (key : Nibble) (m : Machine) :
    (m.release key.val.toUInt8).state.keypad = m.state.keypad.put key false := by
  simp only [release, key?_val]

theorem keypad_step (m : Machine) : (m.perform .step).2.state.keypad = m.state.keypad := by
  rcases perform_step_cases m with ⟨i, -, stepped⟩ | ⟨o, -, stepped⟩
  · rw [stepped]
    exact i.keypad_apply m.dialect m.random m.state
  · rw [stepped]

theorem keypad_rewind (m : Machine) : (m.perform .rewind).2.state.keypad = m.state.keypad := by
  rcases rewind_cases m with ⟨-, same⟩ | ⟨s, back, -, went, -, shape⟩
  · rw [same]
  · rw [went, shape]

theorem keypad_after_replicate {o : Operation}
    (keeps : ∀ m : Machine, (m.perform o).2.state.keypad = m.state.keypad) (n : Nat) (m : Machine) :
    (m.after (List.replicate n o)).state.keypad = m.state.keypad :=
  after_replicate_induction (fun m' same => (keeps m').trans same) rfl n

end Machine

namespace Session

variable {s : Settings} {unseeded : WordStream} {file : Except IoError Reader} {outage : Outage}
  {k k' : Console} {m : Machine} {events handled : List Event} {steps : Nat}

namespace Event

/-- The reset lets go of all keys, so it concerns every one. -/
def concerns (key : Nibble) (e : Event) : Bool := e = press key ∨ e = lift key ∨ e = reset

theorem code_ne_reset : ∀ key : Nibble, Keyboard.code key ≠ Keyboard.functionKey 5 := by decide

theorem concerns_press (j key : Nibble) : (press j).concerns key = decide (j = key) := by
  simp [concerns, press, lift, reset, Keyboard.code_inj, code_ne_reset]

theorem concerns_lift (j key : Nibble) : (lift j).concerns key = decide (j = key) := by
  simp [concerns, press, lift, reset, Keyboard.code_inj]

theorem concerns_reset (key : Nibble) : reset.concerns key = true := by
  simp [concerns]

theorem concerns_of_operation?_eq_none {e : Event} (none : e.operation? = none) (key : Nibble) :
    e.concerns key = false := by
  have other : ¬(e = press key ∨ e = lift key ∨ e = reset) := by
    rintro (rfl | rfl | rfl)
    · exact nomatch (operation?_press key).symm.trans none
    · exact nomatch (operation?_lift key).symm.trans none
    · exact nomatch operation?_reset.symm.trans none
  exact decide_eq_false other

end Event

/-- The keys that are held are those whose last event is that they went down. -/
def Holds (handled : List Event) (m : Machine) : Prop :=
  ∀ key, m.state.keypad.get key = true ↔
    (handled.filter (Event.concerns key)).getLast? = some (Event.press key)

theorem Holds.of_keypad {n : Machine} (h : Holds handled m)
    (same : n.state.keypad = m.state.keypad) : Holds handled n := by
  unfold Holds
  rw [same]
  exact h

theorem getLast?_filter_concat {α : Type} (p : α → Bool) (as : List α) (a : α) :
    ((as ++ [a]).filter p).getLast? = if p a then some a else (as.filter p).getLast? := by
  by_cases h : p a <;> simp [h]

/-- The event that comes last decides for the keys that it concerns, and leaves the others. -/
theorem Holds.concat (h : Holds handled m) (e : Event) :
    Holds (handled ++ [e]) (m.after e.operation?.toList) := by
  intro key
  rw [getLast?_filter_concat]
  rcases e.operation?_cases with none | ⟨j, rfl⟩ | ⟨j, rfl⟩ | rfl
  · rw [none, Event.concerns_of_operation?_eq_none none]
    exact h key
  · have keypad : (m.after (Event.press j).operation?.toList).state.keypad =
        m.state.keypad.put j true := by
      rw [Event.operation?_press]
      exact m.keypad_press j
    rw [keypad, Cells.get_put, Event.concerns_press]
    by_cases own : j = key
    · simp [own]
    · simp [own, h key]
  · have keypad : (m.after (Event.lift j).operation?.toList).state.keypad =
        m.state.keypad.put j false := by
      rw [Event.operation?_lift]
      exact m.keypad_release j
    rw [keypad, Cells.get_put, Event.concerns_lift]
    by_cases own : j = key
    · simp [own, Event.press, Event.lift]
    · simp [own, h key]
  · have up : (m.after Event.reset.operation?.toList).state.keypad.get key = false :=
      Cells.get_replicate false key
    have other : Event.reset ≠ Event.press key := by
      simp [Event.press, Event.reset, (Event.code_ne_reset key).symm]
    rw [up, Event.concerns_reset]
    simp [other]

namespace Console

theorem holds_handleAll (h : Holds handled k.machine) (handles : k.handleAll events = .ok k') :
    Holds (handled ++ events) k'.machine := by
  induction events generalizing k handled with
  | nil =>
    cases handles
    rwa [List.append_nil]
  | cons e events ih =>
    obtain ⟨next, first, rest⟩ := bind_eq_ok.mp handles
    have now : Holds (handled ++ [e]) next.machine := by
      rw [machine_handle first]
      exact h.concat e
    rw [List.append_cons]
    exact ih now rest

theorem holds_begin (h : Holds handled k.machine)
    (handles : { k with pass := k.pass + 1 }.handleAll events = .ok k') :
    Holds (handled ++ events) k'.machine :=
  holds_handleAll (k := { k with pass := k.pass + 1 }) h handles

theorem keypad_move (moves : k.move steps = .ok k') :
    k'.machine.state.keypad = k.machine.state.keypad := by
  unfold move at moves
  split at moves
  · cases moves
    rw [machine_backward]
    exact Machine.keypad_after_replicate Machine.keypad_rewind _ _
  · rw [(machine_forward moves).1]
    exact Machine.keypad_after_replicate Machine.keypad_step _ _

theorem holds_run (h : Holds handled k.machine) (ran : k.run steps outage events = .ok k') :
    Holds (handled ++ events) k'.machine := by
  obtain ⟨reacted, moved, handles, moves, machine⟩ := machine_run ran
  have now := holds_begin h handles
  refine now.of_keypad ?_
  rw [machine, ← keypad_move moves]
  rfl

theorem holds_runAll (h : Holds handled k.machine) {passes : List (List Event)}
    (ran : k.runAll steps outage passes = .ok k') :
    Holds (handled ++ passes.flatten) k'.machine := by
  induction passes generalizing k handled with
  | nil =>
    cases ran
    rwa [List.flatten_nil, List.append_nil]
  | cons events passes ih =>
    obtain ⟨next, first, rest⟩ := bind_eq_ok.mp ran
    rw [List.flatten_cons, ← List.append_assoc]
    exact ih (holds_run h first) rest

end Console

theorem holds_load {notices : List Notice} (loaded : load s unseeded file = .ok (m, notices)) :
    Holds [] m := by
  obtain ⟨program, -, rfl⟩ := load_eq_ok loaded
  intro key
  have up : State.powerOn.keypad.get key = false := Cells.get_replicate false key
  exact iff_of_false (Bool.eq_false_iff.mp up) nofun

theorem holds_consoleAfter {done : List (List Event)}
    (after : consoleAfter s unseeded file outage done = some k) : Holds done.flatten k.machine := by
  obtain ⟨machine, notices, opened, loaded, opens, runs⟩ := consoleAfter_eq_some after
  have shown : Holds [] opened.machine := by
    obtain ⟨calls, before, rfl⟩ := Console.openWindow_eq_ok opens
    exact holds_load loaded
  exact Console.holds_runAll shown runs

theorem holds_consoleHandling {done : List (List Event)}
    (handles : consoleHandling s unseeded file outage done events = some k) :
    Holds (done.flatten ++ events) k.machine := by
  obtain ⟨before, after, handles⟩ := consoleHandling_eq_some handles
  exact Console.holds_begin (holds_consoleAfter after) handles

/-- The machines that a session goes through, each with the events that were handled by then. -/
inductive Visits (s : Settings) (unseeded : WordStream) (file : Except IoError Reader)
    (outage : Outage) : List Event → Machine → Prop
  /-- Between the events of a pass; `now` are those already handled. -/
  | handling {done : List (List Event)} {now : List Event} {handled : Console}
      (handles : consoleHandling s unseeded file outage done now = some handled) :
      Visits s unseeded file outage (done.flatten ++ now) handled.machine
  /-- While the machine goes on. -/
  | stepping {done : List (List Event)} {events : List Event} {handled : Console} {n : Nat}
      (handles : consoleHandling s unseeded file outage done events = some handled)
      (forward : handled.rewinding = false) (within : n ≤ s.stepsPerPass) :
      Visits s unseeded file outage (done.flatten ++ events) (handled.machine.burst n).machine
  /-- While it goes back. -/
  | rewinding {done : List (List Event)} {events : List Event} {handled : Console} {n : Nat}
      (handles : consoleHandling s unseeded file outage done events = some handled)
      (backward : handled.rewinding = true) (within : n ≤ s.stepsPerPass) :
      Visits s unseeded file outage (done.flatten ++ events) (handled.machine.rewindUpTo n).2
  /-- When it has moved, and the timers were counted down. -/
  | moved {done : List (List Event)} {events : List Event} {handled moved : Console}
      (handles : consoleHandling s unseeded file outage done events = some handled)
      (moves : handled.move s.stepsPerPass = .ok moved) :
      Visits s unseeded file outage (done.flatten ++ events) moved.machine
  /-- When its picture was taken, whether or not it can be shown. -/
  | taken {done : List (List Event)} {events : List Event} {handled moved : Console}
      (handles : consoleHandling s unseeded file outage done events = some handled)
      (moves : handled.move s.stepsPerPass = .ok moved) :
      Visits s unseeded file outage (done.flatten ++ events) (moved.machine.perform .takeFrame).2

/-- Wherever a session has come to, a key is held down just where the last event of the key, or
reset, was that the key went down. -/
theorem key_held_iff (visits : Visits s unseeded file outage handled m) (key : Nibble) :
    m.state.keypad.get key = true ↔
      (handled.filter fun e =>
        e = Event.press key ∨ e = Event.lift key ∨ e = Event.reset).getLast? =
          some (Event.press key) := by
  cases visits with
  | handling handles => exact holds_consoleHandling handles key
  | stepping handles forward within =>
    refine (holds_consoleHandling handles).of_keypad ?_ key
    rw [Machine.machine_burst]
    exact Machine.keypad_after_replicate Machine.keypad_step _ _
  | rewinding handles backward within =>
    refine (holds_consoleHandling handles).of_keypad ?_ key
    rw [Machine.rewindUpTo_eq]
    exact Machine.keypad_after_replicate Machine.keypad_rewind _ _
  | moved handles moves =>
    exact (holds_consoleHandling handles).of_keypad (Console.keypad_move moves) key
  | taken handles moves =>
    exact (holds_consoleHandling handles).of_keypad (Console.keypad_move moves) key

/-- A program that stands still. -/
def standsStill : Reader := .ofBytes [0x12, 0x00]

/-- Key 6 takes the place of key 5, and then the machine goes back. -/
def swapsKeys : List (List Event) :=
  [[.press (Nibble.ofNat 5)], [.lift (Nibble.ofNat 5), .press (Nibble.ofNat 6)], [.down 8 false]]

/-- Going back to where key 5 was down leaves key 6 down. -/
theorem key_held_iff_swapsKeys :
    ∃ handled,
      consoleHandling slowest (.ofList []) (.ok standsStill) .none swapsKeys [] = some handled ∧
      handled.machine.saved.map (·.keypad.get (Nibble.ofNat 5)) = [true] ∧
      let back := (handled.machine.rewindUpTo 1).2
      Visits slowest (.ofList []) (.ok standsStill) .none swapsKeys.flatten back ∧
        back.state.keypad.get (Nibble.ofNat 5) = false ∧
        back.state.keypad.get (Nibble.ofNat 6) = true := by
  have seen : (consoleHandling slowest (.ofList []) (.ok standsStill) .none swapsKeys []).map
      (fun k => (k.rewinding, k.machine.saved.map (·.keypad.get (Nibble.ofNat 5)))) =
        some (true, [true]) := by
    decide +kernel
  obtain ⟨handled, handles, shape⟩ := Option.map_eq_some_iff.mp seen
  obtain ⟨backward, saved⟩ := Prod.mk.inj shape
  have visits := Visits.rewinding (n := 1) handles backward (by decide)
  rw [List.append_nil] at visits
  refine ⟨handled, handles, saved, visits, ?_, ?_⟩
  · exact Bool.eq_false_iff.mpr fun held => absurd ((key_held_iff visits _).mp held) (by decide)
  · exact (key_held_iff visits _).mpr (by decide)

end Session
end Chip8
