import Chip8.Proofs.Machine.Bursts
import Chip8.Proofs.Session.Shown

/-!
# What a pass does to the machine

An event does at most one operation on the machine: it presses a key, releases one or resets. A pass
does those of its events, then a number of steps and a tick, or else a number of rewinds, and takes
the picture. Nothing else that a session does touches the machine.
-/

namespace Chip8.Session

namespace Event

def press (key : Nibble) : Event := .down (Keyboard.code key) false

def lift (key : Nibble) : Event := .up (Keyboard.code key)

def reset : Event := .down (Keyboard.functionKey 5) false

/-- What an event does to the machine; the other events only turn switches of the session. -/
def operation? : Event → Option Operation
  | .down code false => match Keyboard.key? code with
    | some key => some (.press key.val.toUInt8)
    | none => if code = Keyboard.functionKey 5 then some .reset else none
  | .up code => (Keyboard.key? code).map fun key => .release key.val.toUInt8
  | .down _ true | .quit | .other => none

theorem operation?_press (key : Nibble) :
    (press key).operation? = some (.press key.val.toUInt8) := by
  simp only [press, operation?, Keyboard.key?_eq_some_iff.mpr rfl]

theorem operation?_lift (key : Nibble) :
    (lift key).operation? = some (.release key.val.toUInt8) := by
  simp only [lift, operation?, Keyboard.key?_eq_some_iff.mpr rfl, Option.map_some]

theorem operation?_reset : reset.operation? = some .reset := rfl

/-- Only these three kinds of events do anything to the machine. -/
theorem operation?_cases (e : Event) :
    e.operation? = none ∨ (∃ key, e = press key) ∨ (∃ key, e = lift key) ∨ e = reset := by
  cases e with
  | down code again =>
    cases again with
    | false =>
      cases known : Keyboard.key? code with
      | some key =>
        obtain rfl := Keyboard.key?_eq_some_iff.mp known
        exact .inr (.inl ⟨key, rfl⟩)
      | none =>
        by_cases resets : code = Keyboard.functionKey 5
        · subst resets
          exact .inr (.inr (.inr rfl))
        · exact .inl (by simp only [operation?, known, if_neg resets])
    | true => exact .inl rfl
  | up code =>
    cases known : Keyboard.key? code with
    | some key =>
      obtain rfl := Keyboard.key?_eq_some_iff.mp known
      exact .inr (.inr (.inl ⟨key, rfl⟩))
    | none => exact .inl (by simp only [operation?, known, Option.map_none])
  | quit => exact .inl rfl
  | other => exact .inl rfl

end Event

private theorem control?_eq_reset {c : Keycode} (h : Keyboard.control? c = some .reset) :
    c = Keyboard.functionKey 5 := by
  simpa [Keyboard.controls] using Keyboard.control?_eq_some_iff.mp h

namespace Console

variable {k k' : Console} {steps : Nat} {outage : Outage} {events : List Event}

/-- Reacts to an event as far as the machine is concerned. -/
def react (e : Event) (k : Console) : Console := (e.operation?.map k.operate).getD k

private theorem keyDown_eq_ok {code : Keycode} (h : k.keyDown code = .ok k') :
    ∃ rewinding, k' = { k.react (.down code false) with rewinding } := by
  by_cases resets : code = Keyboard.functionKey 5
  · subst resets
    exact ⟨_, (Except.ok.inj h).symm⟩
  unfold keyDown at h
  split at h
  · next key known =>
    cases h
    exact ⟨_, by simp only [react, Event.operation?, known]; rfl⟩
  · next unknown =>
    have still : k.react (.down code false) = k := by
      simp only [react, Event.operation?, unknown, if_neg resets]
      rfl
    rw [still]
    split at h
    · cases h
      exact ⟨true, rfl⟩
    · next control => exact absurd (control?_eq_reset control) resets
    · exact nomatch h
    · cases h
      exact ⟨_, rfl⟩
    · cases h
      exact ⟨_, rfl⟩

private theorem keyUp_shape (code : Keycode) (k : Console) :
    ∃ rewinding, k.keyUp code = { k.react (.up code) with rewinding } := by
  unfold keyUp
  split
  · next key known => exact ⟨_, by simp only [react, Event.operation?, known]; rfl⟩
  · next unknown =>
    have still : k.react (.up code) = k := by
      simp only [react, Event.operation?, unknown]
      rfl
    rw [still]
    split <;> exact ⟨_, rfl⟩

/-- An event that does not end the session does its operation, and perhaps turns a switch. -/
theorem handle_eq_ok {e : Event} (h : k.handle e = .ok k') :
    ∃ rewinding, k' = { k.react e with rewinding } := by
  cases e with
  | down code again =>
    cases again with
    | false => exact keyDown_eq_ok h
    | true =>
      cases h
      exact ⟨_, rfl⟩
  | up code =>
    cases h
    exact keyUp_shape code k
  | quit => exact nomatch h
  | other =>
    cases h
    exact ⟨_, rfl⟩

theorem machine_handle {e : Event} (h : k.handle e = .ok k') :
    k'.machine = k.machine.after e.operation?.toList := by
  obtain ⟨rewinding, rfl⟩ := handle_eq_ok h
  change (k.react e).machine = _
  unfold react
  cases e.operation? <;> rfl

theorem machine_handleAll (h : k.handleAll events = .ok k') :
    k'.machine = k.machine.after (events.filterMap Event.operation?) := by
  induction events generalizing k with
  | nil =>
    cases h
    rfl
  | cons e events ih =>
    obtain ⟨next, handled, rest⟩ := bind_eq_ok.mp h
    have split : (e :: events).filterMap Event.operation? =
        e.operation?.toList ++ events.filterMap Event.operation? := by
      cases does : e.operation? <;> simp [does]
    rw [ih rest, machine_handle handled, split, Machine.after_append]

theorem machine_forward (h : k.forward steps = .ok k') :
    k'.machine = (k.machine.after (List.replicate steps .step)).tick ∧
      ∀ f, (k.machine.burst steps).stop ≠ some (.faulted f) := by
  unfold forward at h
  dsimp only at h
  split at h
  · exact nomatch h
  · next sound =>
    cases h
    exact ⟨congrArg Machine.tick (k.machine.machine_burst steps), sound⟩

theorem machine_backward (steps : Nat) (k : Console) :
    (k.backward steps).machine =
      k.machine.after (List.replicate (min steps k.machine.saved.length) .rewind) :=
  congrArg Prod.snd (k.machine.rewindUpTo_eq steps)

theorem machine_followTone (k : Console) : k.followTone.machine = k.machine := by
  unfold followTone
  split <;> rfl

/-- Whether or not there is a picture to take, afterwards none is pending. -/
theorem machine_present (h : k.present outage = .ok k') : k'.machine = k.machine.clearRedraw := by
  unfold present at h
  split at h
  · next none =>
    cases h
    -- no picture is pending just where the mark is off already
    have unmarked : k.machine.state.redraw = false := by
      simpa [Machine.pendingFrame?] using none
    simp only [Machine.clearRedraw, ← unmarked]
  · obtain ⟨calls, rfl⟩ := render_eq_ok h
    rfl

theorem machine_run (h : k.run steps outage events = .ok k') :
    ∃ handled moved, { k with pass := k.pass + 1 }.handleAll events = .ok handled ∧
      handled.move steps = .ok moved ∧ k'.machine = moved.machine.clearRedraw := by
  obtain ⟨handled, moved, handles, moves, presents⟩ := run_eq_ok.mp h
  exact ⟨handled, moved, handles, moves, by rw [machine_present presents, machine_followTone]⟩

end Console

variable {s : Settings} {unseeded : WordStream} {file : Except IoError Reader} {outage : Outage}
  {done : List (List Event)} {events : List Event} {handled last : Console}

/-- The console of a session when, behind the passes `done`, events of the next one have been
handled. -/
def consoleHandling (s : Settings) (unseeded : WordStream) (file : Except IoError Reader)
    (outage : Outage) (done : List (List Event)) (events : List Event) : Option Console :=
  (consoleAfter s unseeded file outage done).bind fun k =>
    ({ k with pass := k.pass + 1 }.handleAll events).toOption

theorem toOption_eq_some {ε α : Type} {x : Except ε α} {a : α} :
    x.toOption = some a ↔ x = .ok a := by
  cases x <;> simp [Except.toOption]

theorem consoleAfter_append (passes : List (List Event)) :
    consoleAfter s unseeded file outage (done ++ passes) =
      (consoleAfter s unseeded file outage done).bind fun k =>
        (k.runAll s.stepsPerPass outage passes).toOption := by
  unfold consoleAfter
  split
  · rfl
  · next machine notices _ =>
    cases opens : (Console.start machine notices).openWindow s.scale outage with
    | error stop => rfl
    | ok opened =>
      change (opened.runAll _ _ (done ++ passes)).toOption = _
      rw [Console.runAll, List.foldlM_append]
      change _ = Option.bind (opened.runAll _ _ done).toOption _
      unfold Console.runAll
      cases done.foldlM (Console.run s.stepsPerPass outage) opened <;> rfl

theorem consoleHandling_eq_some
    (h : consoleHandling s unseeded file outage done events = some handled) :
    ∃ k, consoleAfter s unseeded file outage done = some k ∧
      { k with pass := k.pass + 1 }.handleAll events = .ok handled := by
  obtain ⟨k, before, handles⟩ := Option.bind_eq_some_iff.mp h
  exact ⟨k, before, toOption_eq_some.mp handles⟩

/-- A pass that is completed has handled its events. -/
theorem consoleHandling_of_completed
    (completes : consoleAfter s unseeded file outage (done ++ [events]) = some last) :
    ∃ handled, consoleHandling s unseeded file outage done events = some handled := by
  rw [consoleAfter_append] at completes
  obtain ⟨k, before, runs⟩ := Option.bind_eq_some_iff.mp completes
  obtain ⟨next, ran, -⟩ := bind_eq_ok.mp (toOption_eq_some.mp runs)
  obtain ⟨handled, moved, handles, -⟩ := Console.machine_run ran
  exact ⟨handled, Option.bind_eq_some_iff.mpr ⟨k, before, toOption_eq_some.mpr handles⟩⟩

/-- A completed pass moves the machine from where its events left it, and takes the picture. -/
theorem machine_pass (handles : consoleHandling s unseeded file outage done events = some handled)
    (completes : consoleAfter s unseeded file outage (done ++ [events]) = some last) :
    ∃ moved, handled.move s.stepsPerPass = .ok moved ∧
      last.machine = moved.machine.clearRedraw := by
  obtain ⟨k, before, handles⟩ := consoleHandling_eq_some handles
  rw [consoleAfter_append, before, Option.bind_some, toOption_eq_some] at completes
  obtain ⟨next, ran, rest⟩ := bind_eq_ok.mp completes
  cases rest
  obtain ⟨handled', moved, handles', moves, machine⟩ := Console.machine_run ran
  cases Except.ok.inj (handles.symm.trans handles')
  exact ⟨moved, moves, machine⟩

/-- Settings for one step a pass. -/
def slowest : Settings := ⟨"rom.ch8", 10, 60, Dialect.common, some 0⟩

end Chip8.Session
