import Chip8.Proofs.Session.Shown
import Mathlib.Order.Defs.Unbundled

/-!
# Where a session comes to

Each part of a session leads to a console or to a stop, and either way there is a console that it
came to. All that the parts do to a console comes down to a few changes: a call to the display, an
entry in the transcript that says nothing of the tone, another machine, the switch for going back.
A relation that is kept by these, and by one after the other, is kept by every part, also by one in
which the session ends. What follows the tone is apart.
-/

namespace Chip8

/-- What a record says of the tone: whether it started or stopped. -/
def Notice.tone? : Notice → Option Bool
  | .tone on => some on
  | _ => none

namespace Machine

private theorem tone?_run {pc : UInt16} {i : Instruction} {n : Notice}
    (h : n ∈ runNotices pc i) : n.tone? = none := by
  unfold runNotices at h
  split at h
  · cases List.mem_singleton.mp h
    rfl
  · cases List.mem_singleton.mp h
    rfl
  · exact nomatch h

private theorem tone?_step {m : Machine} {n : Notice} (h : n ∈ m.stepNotices) :
    n.tone? = none := by
  unfold stepNotices at h
  split at h
  · rcases List.mem_cons.mp h with rfl | h
    · rfl
    · split at h
      · exact tone?_run h
      · exact nomatch h
  · exact nomatch h

private theorem tone?_press {k : UInt8} {m : Machine} {n : Notice} (h : n ∈ m.pressNotices k) :
    n.tone? = none := by
  unfold pressNotices at h
  split at h
  · cases List.mem_singleton.mp h
    rfl
  · split at h
    · split at h
      · exact nomatch h
      · cases List.mem_singleton.mp h
        rfl
    · exact nomatch h

private theorem tone?_release {k : UInt8} {n : Notice} (h : n ∈ releaseNotices k) :
    n.tone? = none := by
  unfold releaseNotices at h
  split at h
  · cases List.mem_singleton.mp h
    rfl
  · exact nomatch h

private theorem tone?_load {program : List UInt8} {n : Notice} (h : n ∈ loadNotices program) :
    n.tone? = none := by
  unfold loadNotices at h
  rcases List.mem_append.mp h with h | h
  · split at h
    · cases List.mem_singleton.mp h
      rfl
    · exact nomatch h
  · split at h
    · cases List.mem_singleton.mp h
      rfl
    · exact nomatch h

theorem tone?_loadRom {file : Reader} {n : Notice} (h : n ∈ loadRomNotices file) :
    n.tone? = none := by
  unfold loadRomNotices at h
  split at h
  · exact nomatch h
  · exact tone?_load h

/-- What is done to a machine leaves no record of the tone. -/
theorem tone?_operation {o : Operation} {m : Machine} {n : Notice} (h : n ∈ m.notices o) :
    n.tone? = none := by
  cases o with
  | step => exact tone?_step h
  | press k => exact tone?_press h
  | release k => exact tone?_release h
  | load program => exact tone?_load h
  | loadRom file => exact tone?_loadRom h
  | reset =>
    cases List.mem_singleton.mp h
    rfl
  | _ => exact nomatch h

theorem tone?_burst {steps : Nat} {m : Machine} {n : Notice}
    (h : n ∈ (m.burst steps).notices) : n.tone? = none := by
  induction steps generalizing m with
  | zero => exact nomatch h
  | succ steps ih =>
    rw [burst_succ] at h
    split at h
    · rcases List.mem_append.mp h with h | h
      · exact tone?_step h
      · exact ih h
    · exact tone?_step h

end Machine

namespace Session

def Entry.tone? : Entry → Option Bool
  | .notice n => n.tone?
  | .window _ _ => none
  | .picture _ _ => none

/-- The console that something came to, whether or not the session ended there. -/
def reached : Except Stop Console → Console
  | .error stop => stop.console
  | .ok k => k

namespace Console

variable {R : Console → Console → Prop} [IsPreorder Console R] {k : Console}

/-- A relation that every step keeps up to where it comes to is kept by steps in a row. -/
theorem reached_bind {x : Except Stop Console} {f : Console → Except Stop Console}
    (first : R k (reached x)) (rest : ∀ k', R k' (reached (f k'))) : R k (reached (x >>= f)) := by
  cases x with
  | error stop => exact first
  | ok k' => exact trans_of R first (rest k')

theorem reached_foldlM {α : Type} {step : Console → α → Except Stop Console}
    (each : ∀ k a, R k (reached (step k a))) (as : List α) (k : Console) :
    R k (reached (as.foldlM step k)) := by
  induction as generalizing k with
  | nil => exact refl_of R k
  | cons a as ih => exact reached_bind (each k a) ih

section Recorded
variable (seen : ∀ (e : Entry) (k : Console), e.tone? = none → R k (k.record e))
include seen

theorem reached_recordAll {notices : List Notice} (silent : ∀ n ∈ notices, n.tone? = none)
    (k : Console) : R k (k.recordAll notices) := by
  induction notices generalizing k with
  | nil => exact refl_of R k
  | cons n notices ih =>
    have first := seen (.notice n) k (silent n List.mem_cons_self)
    have rest := ih (fun n later => silent n (List.mem_cons_of_mem _ later)) (k.record (.notice n))
    have both : (k.record (.notice n)).recordAll notices = k.recordAll (n :: notices) := by
      simp [recordAll, record]
    exact trans_of R first (both ▸ rest)

section Called
variable (called : ∀ (c : DisplayCall) (k : Console), R k { k with calls := c :: k.calls })
include called

omit [IsPreorder Console R] seen in
theorem reached_call (outage : Outage) (c : DisplayCall) (k : Console) :
    R k (reached (k.call outage c)) := by
  unfold call
  dsimp only
  split <;> exact called c k

theorem reached_render (outage : Outage) (frame : Frame) (k : Console) :
    R k (reached (k.render outage frame)) :=
  reached_bind (reached_call called outage .texture k) fun k =>
    reached_bind (reached_call called outage .update k) fun k =>
      reached_bind (reached_call called outage .copy k) fun k => seen _ k rfl

theorem reached_makeWindow (outage : Outage) (scale : Nat) (k : Console) :
    R k (reached (k.makeWindow scale outage)) := by
  unfold makeWindow
  dsimp only
  split
  · exact trans_of R (seen _ k rfl) (reached_call called outage .window _)
  · exact refl_of R k

theorem reached_openWindow (outage : Outage) (scale : Nat) (k : Console) :
    R k (reached (k.openWindow scale outage)) :=
  reached_bind (reached_call called outage .init k) fun k =>
    reached_bind (reached_call called outage .video k) fun k =>
      reached_bind (reached_makeWindow seen called outage scale k) fun k =>
        reached_bind (reached_call called outage .renderer k) fun k =>
          reached_bind (trans_of R (seen (.notice (.opened scale)) k rfl)
              (reached_render seen called outage Frame.blank _))
            (reached_call called outage .events)

end Called

section Moved
variable (moved : ∀ (machine : Machine) (k : Console), R k { k with machine })
include moved

theorem reached_operate (o : Operation) (k : Console) : R k (k.operate o) :=
  trans_of R (reached_recordAll seen (fun _ => Machine.tone?_operation) k) (moved _ _)

theorem reached_move (steps : Nat) (k : Console) : R k (reached (k.move steps)) := by
  unfold move
  split
  · exact moved _ k
  · have records : R k (k.recordAll (k.machine.burst steps).notices) :=
      reached_recordAll seen (fun _ => Machine.tone?_burst) k
    have there := trans_of R records (moved (k.machine.burst steps).machine _)
    unfold forward
    dsimp only
    split
    · exact there
    · exact trans_of R there (reached_operate seen moved .tick _)

theorem reached_present (called : ∀ (c : DisplayCall) (k : Console),
    R k { k with calls := c :: k.calls }) (outage : Outage) (k : Console) :
    R k (reached (k.present outage)) := by
  unfold present
  split
  · exact refl_of R k
  · exact trans_of R (reached_operate seen moved .takeFrame k)
      (reached_render seen called outage _ _)

variable (turned : ∀ (rewinding : Bool) (k : Console), R k { k with rewinding })
include turned

theorem reached_keyDown (code : Keycode) (k : Console) : R k (reached (k.keyDown code)) := by
  unfold keyDown
  split
  · exact reached_operate seen moved _ k
  · split
    · exact turned true k
    · exact reached_operate seen moved .reset k
    · exact seen (.notice .closed) k rfl
    · exact refl_of R k
    · exact refl_of R k

theorem reached_keyUp (code : Keycode) (k : Console) : R k (k.keyUp code) := by
  unfold keyUp
  split
  · exact reached_operate seen moved _ k
  · split
    · exact turned false k
    all_goals exact refl_of R k

theorem reached_handleAll (events : List Event) (k : Console) :
    R k (reached (k.handleAll events)) := by
  refine reached_foldlM (fun k e => ?_) events k
  cases e with
  | down code again =>
    cases again with
    | false => exact reached_keyDown seen moved turned code k
    | true => exact refl_of R k
  | up code => exact reached_keyUp seen moved turned code k
  | quit => exact seen (.notice .closed) k rfl
  | other => exact refl_of R k

end Moved
end Recorded
end Console
end Session
end Chip8
