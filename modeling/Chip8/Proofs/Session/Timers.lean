import Chip8.Proofs.Instruction.Footprint
import Chip8.Proofs.Session.Passes

/-!
# What the timers count

A pass in which the machine goes on counts each timer down once, however many instructions it runs
and even if none can run; only an instruction made for it, a reset, or going back changes a timer
otherwise. So over a stretch of passes a timer falls by their number, as far as zero. Going back
counts nothing: it is so many rewinds and no tick.
-/

namespace Chip8

inductive Timer
  | delay
  | sound

namespace Timer

variable {m : Machine}

def read : Timer → State → UInt8
  | delay, s => s.delay
  | sound, s => s.sound

/-- The instruction that sets a timer from a register. -/
def setter : Timer → Reg → Instruction
  | delay, x => .setDelay x
  | sound, x => .setSound x

theorem read_apply (timer : Timer) {i : Instruction} (other : ∀ x, i ≠ timer.setter x)
    (d : Dialect) (w : WordStream) (s : State) : timer.read (i.apply d w s) = timer.read s := by
  cases timer with
  | delay =>
    change (i.apply d w s).delay = s.delay
    rw [Instruction.delay_apply]
    cases i with
    | setDelay x => exact absurd rfl (other x)
    | _ => rfl
  | sound =>
    change (i.apply d w s).sound = s.sound
    rw [Instruction.sound_apply]
    cases i with
    | setSound x => exact absurd rfl (other x)
    | _ => rfl

theorem read_tick (timer : Timer) (m : Machine) :
    (timer.read m.tick.state).toNat = (timer.read m.state).toNat - 1 := by
  cases timer with
  | delay => exact Machine.toNat_countDown m.state.delay
  | sound => exact Machine.toNat_countDown m.state.sound

theorem read_step (timer : Timer)
    (unset : ∀ x, (m.perform .step).1 ≠ .stepped (.executed (timer.setter x))) :
    timer.read (m.perform .step).2.state = timer.read m.state := by
  rcases Machine.perform_step_cases m with ⟨i, -, stepped⟩ | ⟨o, -, stepped⟩
  · rw [stepped] at unset ⊢
    have other : ∀ x, i ≠ timer.setter x := by
      rintro x rfl
      refine unset x ?_
      cases timer <;> rfl
    exact timer.read_apply other m.dialect m.random m.state
  · rw [stepped]

theorem read_steps (timer : Timer) {n : Nat}
    (unset : ∀ x,
      .stepped (.executed (timer.setter x)) ∉ m.answers (List.replicate n Operation.step)) :
    timer.read (m.after (List.replicate n .step)).state = timer.read m.state := by
  induction n generalizing m with
  | zero => rfl
  | succ n ih =>
    have first := timer.read_step fun x same => unset x (same ▸ List.mem_cons_self)
    exact (ih fun x later => unset x (List.mem_cons_of_mem _ later)).trans first

/-- Of what events do to the machine, only the reset changes a timer. -/
theorem read_event (timer : Timer) {e : Session.Event} {o : Operation}
    (does : e.operation? = some o) (other : e ≠ .reset) (m : Machine) :
    timer.read (m.perform o).2.state = timer.read m.state := by
  rcases e.operation?_cases with none | ⟨key, rfl⟩ | ⟨key, rfl⟩ | rfl
  · exact nomatch none.symm.trans does
  · cases (Session.Event.operation?_press key).symm.trans does
    obtain ⟨keypad, v, awaiting, shape⟩ := Machine.press_shape key.val.toUInt8 m
    change timer.read (m.press key.val.toUInt8).state = _
    rw [shape]
    cases timer <;> rfl
  · cases (Session.Event.operation?_lift key).symm.trans does
    obtain ⟨keypad, shape⟩ := Machine.release_shape key.val.toUInt8 m
    change timer.read (m.release key.val.toUInt8).state = _
    rw [shape]
    cases timer <;> rfl
  · exact absurd rfl other

end Timer

namespace Session

variable {s : Settings} {unseeded : WordStream} {file : Except IoError Reader} {outage : Outage}
  {done : List (List Event)} {events : List Event} {k k' handled last : Console} {timer : Timer}

/-- A pass in which the machine goes on, is not reset, and runs no instruction that sets the
timer. -/
structure Calm (timer : Timer) (steps : Nat) (events : List Event) (handled : Console) : Prop where
  forward : handled.rewinding = false
  unreset : Event.reset ∉ events
  unset : ∀ x, .stepped (.executed (timer.setter x)) ∉
    handled.machine.answers (List.replicate steps Operation.step)

theorem Console.read_handleAll (timer : Timer) (handles : k.handleAll events = .ok k')
    (unreset : Event.reset ∉ events) :
    timer.read k'.machine.state = timer.read k.machine.state := by
  have keeps : ∀ m : Machine, ∀ o ∈ events.filterMap Event.operation?,
      timer.read m.state = timer.read k.machine.state →
        timer.read (m.perform o).2.state = timer.read k.machine.state := by
    intro m o inside same
    obtain ⟨e, comes, does⟩ := List.mem_filterMap.mp inside
    have other : e ≠ .reset := fun resets => unreset (resets ▸ comes)
    exact (timer.read_event does other m).trans same
  rw [machine_handleAll handles]
  exact Machine.after_induction_of_mem keeps rfl

theorem read_clearRedraw (timer : Timer) (m : Machine) :
    timer.read m.clearRedraw.state = timer.read m.state := by
  cases timer <;> rfl

/-- A pass that goes on is its steps and one tick. -/
theorem forward_pass
    (handles : consoleHandling s unseeded file outage done events = some handled)
    (completes : consoleAfter s unseeded file outage (done ++ [events]) = some last)
    (forward : handled.rewinding = false) :
    last.machine =
        (handled.machine.after (List.replicate s.stepsPerPass .step)).tick.clearRedraw ∧
      (last.machine.state.awaiting = none →
        (handled.machine.burst s.stepsPerPass).trail.length = s.stepsPerPass) := by
  obtain ⟨moved, moves, machine⟩ := machine_pass handles completes
  rw [Console.move, if_neg (by simp [forward])] at moves
  obtain ⟨there, sound⟩ := Console.machine_forward moves
  rw [machine, there]
  refine ⟨rfl, fun free => ?_⟩
  rw [← Machine.machine_burst] at free
  rcases Machine.burst_stop s.stepsPerPass handled.machine with ⟨-, all⟩ | ⟨o, stop, stuck⟩
  · exact all
  · -- a pass that ended on a fault would not have been completed, so a register waits
    rcases Machine.upcoming_eq_error stuck with ⟨x, rfl, waits⟩ | ⟨f, rfl⟩
    · exact nomatch free.symm.trans waits
    · exact absurd stop (sound f)

/-- A pass that goes back is as many rewinds as it may have and can have, and no tick. -/
theorem backward_pass
    (handles : consoleHandling s unseeded file outage done events = some handled)
    (completes : consoleAfter s unseeded file outage (done ++ [events]) = some last)
    (backward : handled.rewinding = true) :
    let back := min s.stepsPerPass handled.machine.saved.length
    handled.machine.answers (List.replicate back .rewind) = List.replicate back (.rewound true) ∧
      last.machine = (handled.machine.after (List.replicate back .rewind)).clearRedraw := by
  intro back
  obtain ⟨moved, moves, machine⟩ := machine_pass handles completes
  rw [Console.move, if_pos backward] at moves
  cases moves
  exact ⟨Machine.answers_rewinds (Nat.min_le_right ..),
    by rw [machine, Console.machine_backward]⟩

theorem Calm.read_pass (before : consoleAfter s unseeded file outage done = some k)
    (handles : consoleHandling s unseeded file outage done events = some handled)
    (completes : consoleAfter s unseeded file outage (done ++ [events]) = some last)
    (calm : Calm timer s.stepsPerPass events handled) :
    (timer.read last.machine.state).toNat = (timer.read k.machine.state).toNat - 1 := by
  obtain ⟨k₀, before₀, handling⟩ := consoleHandling_eq_some handles
  cases Option.some.inj (before.symm.trans before₀)
  have undisturbed := Console.read_handleAll timer handling calm.unreset
  rw [(forward_pass handles completes calm.forward).1, read_clearRedraw, timer.read_tick,
    timer.read_steps calm.unset, undisturbed]

theorem read_stretch {stretch : List (List Event)}
    (before : consoleAfter s unseeded file outage done = some k)
    (after : consoleAfter s unseeded file outage (done ++ stretch) = some k')
    (calm : ∀ n events handled, stretch[n]? = some events →
      consoleHandling s unseeded file outage (done ++ stretch.take n) events = some handled →
      Calm timer s.stepsPerPass events handled) :
    (timer.read k'.machine.state).toNat =
      (timer.read k.machine.state).toNat - stretch.length := by
  induction stretch generalizing done k with
  | nil =>
    rw [List.append_nil, before] at after
    cases after
    rfl
  | cons events rest ih =>
    have on (passes : List (List Event)) : done ++ events :: passes = done ++ [events] ++ passes :=
      List.append_cons ..
    rw [on] at after
    -- the whole stretch was completed, so its first pass was
    obtain ⟨next, completes, -⟩ := Option.bind_eq_some_iff.mp (consoleAfter_append rest ▸ after)
    obtain ⟨handled, handles⟩ := consoleHandling_of_completed completes
    have first : Calm timer s.stepsPerPass events handled := by
      refine calm 0 events handled rfl ?_
      rwa [List.take_zero, List.append_nil]
    have later := ih completes after fun n events' handled' inside handles' => by
      refine calm (n + 1) events' handled' inside ?_
      rwa [List.take_succ_cons, on]
    rw [later, first.read_pass before handles completes, List.length_cons]
    omega

/-- A program that sets both timers to five, waits for a key, and stands still. -/
def waitsTimed : Reader := .ofBytes [0x60, 0x05, 0xF0, 0x15, 0xF0, 0x18, 0xF1, 0x0A, 0x12, 0x08]

/-- Settings for three steps a pass. -/
def brisk : Settings := ⟨"rom.ch8", 10, 180, Dialect.common, some 0⟩

/-- A wait, the key that ends it, and four passes that stand still. -/
def waitedFor : List (List Event) :=
  [[], [.press (Nibble.ofNat 5)], [.lift (Nibble.ofNat 5)], [], [], []]

end Session
end Chip8
