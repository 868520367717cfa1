import Chip8.Proofs.Machine.Runs
import Chip8.Session.Play

/-!
# What a session shows

The console after a number of passes, and the picture that was shown last, read off the transcript.
Only a render shows a picture; everything else a session does leaves the last one standing.
-/

namespace Chip8.Session

theorem bind_eq_ok {ε α β : Type} {x : Except ε α} {f : α → Except ε β} {b : β} :
    x >>= f = .ok b ↔ ∃ a, x = .ok a ∧ f a = .ok b := by
  cases x with
  | error e => simp [bind, Except.bind]
  | ok a => simp [bind, Except.bind]

/-- The picture that an entry shows, with the pass it is shown in. -/
def Entry.picture? : Entry → Option (Nat × Frame)
  | .picture pass frame => some (pass, frame)
  | .notice _ => none
  | .window _ _ => none

/-- The picture that was shown last, with its pass. -/
def Console.shown? (k : Console) : Option (Nat × Frame) := k.transcript.findSome? Entry.picture?

/-- The console of a session after its passes, if all of them were completed. -/
def consoleAfter (s : Settings) (unseeded : WordStream) (file : Except IoError Reader)
    (outage : Outage) (passes : List (List Event)) : Option Console :=
  match load s unseeded file with
  | .error _ => none
  | .ok (machine, notices) =>
    ((Console.start machine notices).openWindow s.scale outage >>=
      Console.runAll s.stepsPerPass outage passes).toOption

variable {s : Settings} {unseeded : WordStream} {file : Except IoError Reader} {outage : Outage}
  {passes : List (List Event)} {k k' : Console}

theorem load_eq_ok {machine : Machine} {notices : List Notice}
    (h : load s unseeded file = .ok (machine, notices)) :
    ∃ program : List UInt8, program.length ≤ romLimit ∧
      machine = { Machine.new s.dialect (s.random unseeded) with
        state := State.powerOn.install program, program } := by
  unfold load at h
  split at h
  · exact nomatch h
  · split at h
    · exact nomatch h
    · next loaded =>
      cases h
      obtain ⟨program, fits, -⟩ := Machine.loadRom_eq_ok loaded
      exact ⟨program, Machine.load_eq_ok_iff.mp fits⟩

theorem consoleAfter_eq_some (h : consoleAfter s unseeded file outage passes = some k) :
    ∃ machine notices opened, load s unseeded file = .ok (machine, notices) ∧
      (Console.start machine notices).openWindow s.scale outage = .ok opened ∧
      opened.runAll s.stepsPerPass outage passes = .ok k := by
  unfold consoleAfter at h
  split at h
  · exact nomatch h
  · next machine notices loaded =>
    cases ran : (Console.start machine notices).openWindow s.scale outage >>=
        Console.runAll s.stepsPerPass outage passes with
    | error stop =>
      rw [ran] at h
      exact nomatch h
    | ok last =>
      rw [ran] at h
      cases h
      obtain ⟨opened, opens, runs⟩ := bind_eq_ok.mp ran
      exact ⟨machine, notices, opened, loaded, opens, runs⟩

/-- A session whose passes are all completed ends by its window being closed. -/
theorem play_of_consoleAfter (h : consoleAfter s unseeded file outage passes = some k) :
    play s unseeded file outage passes = k.closed.report := by
  obtain ⟨machine, notices, opened, loaded, opens, runs⟩ := consoleAfter_eq_some h
  have ran := bind_eq_ok.mpr ⟨opened, opens, runs⟩
  simp only [play, loaded, Console.play, ran]

theorem getLast?_pictures (stop : Stop) : stop.report.pictures.getLast? = stop.console.shown? := by
  have pictures :
      stop.report.pictures = stop.console.transcript.reverse.filterMap Entry.picture? := by
    refine congrArg (List.filterMap · _) (funext fun e => ?_)
    cases e <;> rfl
  rw [pictures, List.filterMap_reverse, List.getLast?_reverse, List.head?_filterMap, Console.shown?]

namespace Console

theorem call_eq_ok {c : DisplayCall} (h : k.call outage c = .ok k') :
    k' = { k with calls := c :: k.calls } := by
  unfold call at h
  dsimp only at h
  split at h
  · exact nomatch h
  · exact (Except.ok.inj h).symm

theorem render_eq_ok {f : Frame} (h : k.render outage f = .ok k') :
    ∃ calls, k' = { k with calls, transcript := .picture k.pass f :: k.transcript } := by
  obtain ⟨a, texture, h⟩ := bind_eq_ok.mp h
  obtain ⟨b, update, h⟩ := bind_eq_ok.mp h
  obtain ⟨c, copy, h⟩ := bind_eq_ok.mp h
  cases call_eq_ok texture
  cases call_eq_ok update
  cases call_eq_ok copy
  exact ⟨_, (Except.ok.inj h).symm⟩

theorem makeWindow_eq_ok {scale : Nat} (h : k.makeWindow scale outage = .ok k') :
    ∃ calls width height,
      k' = { k with calls, transcript := .window width height :: k.transcript } := by
  unfold makeWindow at h
  dsimp only at h
  split at h
  · exact ⟨_, _, _, call_eq_ok h⟩
  · exact nomatch h

theorem openWindow_eq_ok {scale : Nat} (h : k.openWindow scale outage = .ok k') :
    ∃ calls before,
      k' = { k with calls, transcript := .picture k.pass Frame.blank :: before } := by
  obtain ⟨a, init, h⟩ := bind_eq_ok.mp h
  obtain ⟨b, video, h⟩ := bind_eq_ok.mp h
  obtain ⟨c, window, h⟩ := bind_eq_ok.mp h
  obtain ⟨d, renderer, h⟩ := bind_eq_ok.mp h
  obtain ⟨e, dark, events⟩ := bind_eq_ok.mp h
  cases call_eq_ok init
  cases call_eq_ok video
  obtain ⟨_, _, _, rfl⟩ := makeWindow_eq_ok window
  cases call_eq_ok renderer
  obtain ⟨_, rfl⟩ := render_eq_ok dark
  exact ⟨_, _, call_eq_ok events⟩

@[simp]
theorem shown?_recordAll (notices : List Notice) (k : Console) :
    (k.recordAll notices).shown? = k.shown? := by
  have silent : ((notices.map Entry.notice).reverse).findSome? Entry.picture? = none := by
    rw [List.findSome?_eq_none_iff]
    intro e inside
    obtain ⟨n, -, rfl⟩ := List.mem_map.mp (List.mem_reverse.mp inside)
    rfl
  rw [shown?, recordAll, List.findSome?_append, silent]
  rfl

@[simp]
theorem shown?_operate (o : Operation) (k : Console) : (k.operate o).shown? = k.shown? :=
  shown?_recordAll (k.machine.notices o) k

theorem run_eq_ok {steps : Nat} {events : List Event} :
    k.run steps outage events = .ok k' ↔ ∃ handled moved,
      { k with pass := k.pass + 1 }.handleAll events = .ok handled ∧
        handled.move steps = .ok moved ∧ moved.followTone.present outage = .ok k' := by
  constructor
  · intro h
    obtain ⟨handled, handles, h⟩ := bind_eq_ok.mp h
    obtain ⟨moved, moves, presents⟩ := bind_eq_ok.mp h
    exact ⟨handled, moved, handles, moves, presents⟩
  · rintro ⟨handled, moved, handles, moves, presents⟩
    exact bind_eq_ok.mpr ⟨handled, handles, bind_eq_ok.mpr ⟨moved, moves, presents⟩⟩

end Console
end Chip8.Session
