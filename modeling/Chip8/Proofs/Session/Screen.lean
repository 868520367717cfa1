import Chip8.Proofs.Machine.Redraw
import Chip8.Proofs.Screen.Raster
import Chip8.Proofs.Session.Passes

/-!
# Whether the screen is up to date

After a completed pass the screen shows the picture of the machine, with one exception. A reset
makes the picture dark without marking it, so until a program draws again the screen keeps what it
showed, and it is out of date unless that was dark as well.
-/

namespace Chip8.Session

namespace Console

variable {k k' : Console} {steps : Nat} {outage : Outage}

structure Alike (k k' : Console) : Prop where
  pass : k'.pass = k.pass
  shown : k'.shown? = k.shown?

theorem Alike.trans {k k' k'' : Console} (h : k.Alike k') (h' : k'.Alike k'') : k.Alike k'' :=
  ⟨h'.pass.trans h.pass, h'.shown.trans h.shown⟩

theorem alike_operate (o : Operation) (k : Console) : k.Alike (k.operate o) :=
  ⟨rfl, shown?_operate o k⟩

structure Still (k k' : Console) : Prop extends k.Alike k' where
  redraw : k'.machine.state.redraw = k.machine.state.redraw
  frame : k'.machine.state.frame = k.machine.state.frame

theorem handle_reset (k : Console) : k.handle Event.reset = .ok (k.operate .reset) := rfl

/-- Only the event that resets the machine changes the picture. -/
theorem still_handle {e : Event} (h : k.handle e = .ok k') (other : e ≠ Event.reset) :
    k.Still k' := by
  obtain ⟨rewinding, rfl⟩ := handle_eq_ok h
  rcases e.operation?_cases with none | ⟨key, rfl⟩ | ⟨key, rfl⟩ | rfl
  · rw [react, none]
    exact ⟨⟨rfl, rfl⟩, rfl, rfl⟩
  · obtain ⟨redraw, frame⟩ := Machine.redraw_press key.val.toUInt8 k.machine
    rw [react, Event.operation?_press]
    exact ⟨⟨rfl, shown?_operate (.press key.val.toUInt8) k⟩, redraw, frame⟩
  · obtain ⟨redraw, frame⟩ := Machine.redraw_release key.val.toUInt8 k.machine
    rw [react, Event.operation?_lift]
    exact ⟨⟨rfl, shown?_operate (.release key.val.toUInt8) k⟩, redraw, frame⟩
  · exact absurd rfl other

theorem handleAll_eq_ok {events : List Event} (h : k.handleAll events = .ok k')
    (clean : k.machine.state.redraw = false) :
    k.Alike k' ∧ k'.machine.state.redraw = false ∧
      k'.machine.state.frame =
        if Event.reset ∈ events then Frame.blank else k.machine.state.frame := by
  induction events generalizing k with
  | nil =>
    cases h
    exact ⟨⟨rfl, rfl⟩, clean, rfl⟩
  | cons e events ih =>
    obtain ⟨next, handled, rest⟩ := bind_eq_ok.mp h
    by_cases reset : e = Event.reset
    · subst reset
      rw [handle_reset] at handled
      cases handled
      -- the picture goes dark and the mark goes with it
      obtain ⟨alike, redraw, frame⟩ := ih rest rfl
      refine ⟨(alike_operate .reset k).trans alike, redraw, ?_⟩
      rw [frame, if_pos List.mem_cons_self]
      split <;> rfl
    · have still := still_handle handled reset
      obtain ⟨alike, redraw, frame⟩ := ih rest (still.redraw.trans clean)
      refine ⟨still.toAlike.trans alike, redraw, ?_⟩
      have notFirst : Event.reset ∈ e :: events ↔ Event.reset ∈ events := by
        simp [Ne.symm reset]
      simp only [frame, still.frame, notFirst]

theorem move_eq_ok (h : k.move steps = .ok k') :
    k.Alike k' ∧ k.machine.state.Redrawn k'.machine.state := by
  unfold move at h
  split at h
  · cases h
    exact ⟨⟨rfl, rfl⟩, k.machine.redrawn_rewindUpTo steps⟩
  · unfold forward at h
    dsimp only at h
    split at h
    · exact nomatch h
    · cases h
      have records := shown?_recordAll (k.machine.burst steps).notices k
      exact ⟨⟨rfl, (shown?_operate .tick _).trans records⟩, k.machine.redrawn_burst steps⟩

theorem alike_followTone (k : Console) : k.Alike k.followTone := by
  unfold followTone
  split <;> exact ⟨rfl, rfl⟩

theorem present_of_unmarked (clean : k.machine.state.redraw = false)
    (h : k.present outage = .ok k') : k' = k := by
  have none : k.machine.pendingFrame? = none := by simp [Machine.pendingFrame?, clean]
  rw [present, none] at h
  exact (Except.ok.inj h).symm

theorem present_of_marked (marked : k.machine.state.redraw = true)
    (h : k.present outage = .ok k') :
    k'.pass = k.pass ∧ k'.shown? = some (k.pass, k.machine.state.frame) ∧
      k'.machine = k.machine.clearRedraw := by
  have some : k.machine.pendingFrame? = some k.machine.state.frame := by
    simp [Machine.pendingFrame?, marked]
  rw [present, some] at h
  obtain ⟨calls, rfl⟩ := render_eq_ok h
  exact ⟨rfl, rfl, rfl⟩

/-- After the passes `done` the picture of pass `p` stands on the screen, and that of the machine is
the same unless it was reset since. -/
structure Shows (k : Console) (done : List (List Event)) (p : Nat) (shown : Frame) : Prop where
  pass_eq : k.pass = done.length
  shown_eq : k.shown? = some (p, shown)
  le_pass : p ≤ done.length
  clean : k.machine.state.redraw = false
  frame_eq : k.machine.state.frame =
    if Event.reset ∈ (done.drop p).flatten then Frame.blank else shown

variable {done : List (List Event)} {p : Nat} {shown : Frame}

private theorem Shows.frame_handled (h : k.Shows done p shown) (events : List Event) :
    (if Event.reset ∈ events then Frame.blank else k.machine.state.frame) =
      if Event.reset ∈ ((done ++ [events]).drop p).flatten then Frame.blank else shown := by
  rw [h.frame_eq, List.drop_append_of_le_length h.le_pass, List.flatten_append]
  by_cases now : Event.reset ∈ events
  · simp [now]
  · simp [now]

/-- A pass shows a new picture, or leaves the old one standing. -/
theorem Shows.run (h : k.Shows done p shown) {events : List Event}
    (ran : k.run steps outage events = .ok k') :
    ∃ p' shown', k'.Shows (done ++ [events]) p' shown' := by
  obtain ⟨handled, moved, handles, moves, presents⟩ := run_eq_ok.mp ran
  obtain ⟨alike, clean, frame⟩ := handleAll_eq_ok handles h.clean
  obtain ⟨alike', redrawn⟩ := move_eq_ok moves
  have tone := alike_followTone moved
  have same := machine_followTone moved
  have through := (alike.trans alike').trans tone
  have pass : moved.followTone.pass = (done ++ [events]).length := by
    rw [through.pass, h.pass_eq, List.length_append]
    rfl
  cases marked : moved.followTone.machine.state.redraw with
  | true =>
    obtain ⟨pass', shown', machine⟩ := present_of_marked marked presents
    refine ⟨_, _, pass'.trans pass, shown', Nat.le_of_eq pass, ?_, ?_⟩
    · rw [machine]
      rfl
    · rw [machine, pass, List.drop_length]
      rfl
  | false =>
    cases present_of_unmarked marked presents
    refine ⟨p, shown, pass, through.shown.trans h.shown_eq, ?_, marked, ?_⟩
    · rw [List.length_append]
      exact Nat.le_add_right_of_le h.le_pass
    · rw [same] at marked ⊢
      rw [redrawn.frame_eq marked, frame]
      exact h.frame_handled events

theorem Shows.runAll (h : k.Shows done p shown) {passes : List (List Event)}
    (ran : k.runAll steps outage passes = .ok k') :
    ∃ p' shown', k'.Shows (done ++ passes) p' shown' := by
  induction passes generalizing k done p shown with
  | nil =>
    cases ran
    rw [List.append_nil]
    exact ⟨p, shown, h⟩
  | cons events passes ih =>
    obtain ⟨next, first, rest⟩ := bind_eq_ok.mp ran
    obtain ⟨p', shown', h'⟩ := h.run first
    obtain ⟨p'', shown'', h''⟩ := ih h' rest
    rw [List.append_assoc] at h''
    exact ⟨p'', shown'', h''⟩

theorem shows_openWindow {s : Settings} {unseeded : WordStream} {file : Except IoError Reader}
    {machine : Machine} {notices : List Notice}
    (loaded : load s unseeded file = .ok (machine, notices))
    (opens : (start machine notices).openWindow s.scale outage = .ok k) :
    k.Shows [] 0 Frame.blank := by
  obtain ⟨program, -, rfl⟩ := load_eq_ok loaded
  obtain ⟨calls, before, rfl⟩ := openWindow_eq_ok opens
  exact ⟨rfl, rfl, Nat.le_refl 0, rfl, rfl⟩

end Console

/-- After any completed passes of any session, the picture that was shown last is that of the
machine just where no reset has come since it was shown, or it is dark itself. -/
theorem screen_up_to_date_iff {s : Settings} {unseeded : WordStream}
    {file : Except IoError Reader} {outage : Outage} {passes : List (List Event)} {k : Console}
    (completed : consoleAfter s unseeded file outage passes = some k) :
    ∃ p shown, (play s unseeded file outage passes).pictures.getLast? = some (p, shown) ∧
      p ≤ passes.length ∧
      (shown.texture = k.machine.state.frame.texture ↔
        Event.reset ∉ (passes.drop p).flatten ∨ shown = Frame.blank) := by
  obtain ⟨machine, notices, opened, loaded, opens, runs⟩ := consoleAfter_eq_some completed
  obtain ⟨p, shown, shows⟩ := (Console.shows_openWindow loaded opens).runAll runs
  rw [List.nil_append] at shows
  refine ⟨p, shown, ?_, shows.le_pass, ?_⟩
  · rw [play_of_consoleAfter completed, getLast?_pictures]
    exact shows.shown_eq
  · rw [shows.frame_eq]
    split
    · next reset =>
      constructor
      · intro same
        exact .inr (Frame.texture_inj same)
      · rintro (unreset | dark)
        · exact absurd reset unreset
        · rw [dark]
    · next unreset => exact ⟨fun _ => .inl unreset, fun _ => rfl⟩

/-- A program that draws the digit 0 and then stands still. -/
def drawsOnce : Reader := .ofBytes [0x60, 0x00, 0xD0, 0x05, 0x12, 0x04]

/-- The digit is on the screen after two passes. -/
theorem screen_up_to_date_drawsOnce :
    ∃ k, consoleAfter slowest (.ofList []) (.ok drawsOnce) .none [[], []] = some k ∧
      ∃ p shown, (play slowest (.ofList []) (.ok drawsOnce) .none [[], []]).pictures.getLast? =
          some (p, shown) ∧ p ≤ 2 ∧
        (shown.texture = k.machine.state.frame.texture ↔
          Event.reset ∉ ([[], []].drop p).flatten ∨ shown = Frame.blank) := by
  have completed :
      (consoleAfter slowest (.ofList []) (.ok drawsOnce) .none [[], []]).isSome = true := by
    decide +kernel
  obtain ⟨k, after⟩ := Option.isSome_iff_exists.mp completed
  exact ⟨k, after, screen_up_to_date_iff after⟩

/-- A reset in the third pass leaves the digit on the screen of a dark machine. -/
theorem screen_out_of_date_drawsOnce :
    ∃ k, consoleAfter slowest (.ofList []) (.ok drawsOnce) .none [[], [], [Event.reset]] = some k ∧
      ∃ p shown, (play slowest (.ofList []) (.ok drawsOnce) .none
          [[], [], [Event.reset]]).pictures.getLast? = some (p, shown) ∧
        shown.texture ≠ k.machine.state.frame.texture := by
  have dark : (consoleAfter slowest (.ofList []) (.ok drawsOnce) .none
      [[], [], [Event.reset]]).map (·.machine.state.frame) = some Frame.blank := by
    decide +kernel
  have shows : (play slowest (.ofList []) (.ok drawsOnce) .none
      [[], [], [Event.reset]]).pictures.getLast? =
        some (2, Sprite.mask false 0 0 (glyphs.take 5)) := by
    decide +kernel
  obtain ⟨k, after, blank⟩ := Option.map_eq_some_iff.mp dark
  refine ⟨k, after, 2, _, shows, fun same => ?_⟩
  have lit : (Sprite.mask false 0 0 (glyphs.take 5)).pixel 0 0 = true := by decide +kernel
  rw [Frame.texture_inj same, blank, Frame.pixel_blank] at lit
  exact nomatch lit

end Chip8.Session
