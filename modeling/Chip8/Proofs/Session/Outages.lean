import Chip8.Proofs.Session.Reached
import Chip8.Proofs.Session.Screen

/-!
# Sessions cut short by the display

What becomes of a session if one use of one call to the display fails. The session is compared with
the one in which no call fails: as long as the use is not reached, the two do the same, and where it
is reached, the failure ends the session. So the cut session has been seen to do what comes first in
the whole one, and what it failed to show comes next there.
-/

namespace Chip8.Session

/-- Whether a call is made for every picture. -/
def DisplayCall.renders : DisplayCall → Bool
  | texture | update | copy => true
  | init | video | window | renderer | events => false

namespace Console

variable {k k' : Console} {c : DisplayCall} {n : Nat} {text : String} {outage : Outage}
  {steps : Nat} {events : List Event} {x y : Except Stop Console}
  {f g : Console → Except Stop Console}

/-- Whether a call has been made for the `n`-th time. -/
def Had (c : DisplayCall) (n : Nat) (k : Console) : Prop := 1 ≤ n ∧ n ≤ k.calls.count c

/-- Nothing that was called or seen is forgotten. -/
structure Before (k k' : Console) : Prop where
  calls : k.calls <:+ k'.calls
  transcript : k.transcript <:+ k'.transcript

theorem Before.refl (k : Console) : k.Before k := ⟨List.suffix_rfl, List.suffix_rfl⟩

theorem Before.trans {k k' k'' : Console} (h : k.Before k') (h' : k'.Before k'') : k.Before k'' :=
  ⟨h.calls.trans h'.calls, h.transcript.trans h'.transcript⟩

theorem Before.had (h : k.Before k') (had : k.Had c n) : k'.Had c n :=
  ⟨had.1, had.2.trans (h.calls.sublist.count_le c)⟩

instance : IsPreorder Console Before where
  refl := Before.refl
  trans _ _ _ := Before.trans

/-! ## What makes no call -/

/-- No call was made, and nothing that was seen is forgotten. -/
structure Quiet (k k' : Console) : Prop where
  calls : k'.calls = k.calls
  transcript : k.transcript <:+ k'.transcript

theorem Quiet.refl (k : Console) : k.Quiet k := ⟨rfl, List.suffix_rfl⟩

theorem Quiet.trans {k k' k'' : Console} (h : k.Quiet k') (h' : k'.Quiet k'') : k.Quiet k'' :=
  ⟨h'.calls.trans h.calls, h.transcript.trans h'.transcript⟩

instance : IsPreorder Console Quiet where
  refl := Quiet.refl
  trans _ _ _ := Quiet.trans

theorem Quiet.before (h : k.Quiet k') : k.Before k' :=
  ⟨h.calls ▸ List.suffix_rfl, h.transcript⟩

theorem Quiet.had_iff (h : k.Quiet k') : k'.Had c n ↔ k.Had c n := by
  rw [Had, Had, h.calls]

theorem quiet_record (e : Entry) (k : Console) : k.Quiet (k.record e) :=
  ⟨rfl, List.suffix_cons _ _⟩

theorem quiet_handleAll (events : List Event) (k : Console) :
    k.Quiet (reached (k.handleAll events)) :=
  reached_handleAll (fun e k _ => quiet_record e k) (fun _ _ => ⟨rfl, List.suffix_rfl⟩)
    (fun _ _ => ⟨rfl, List.suffix_rfl⟩) events k

theorem quiet_move (steps : Nat) (k : Console) : k.Quiet (reached (k.move steps)) :=
  reached_move (fun e k _ => quiet_record e k) (fun _ _ => ⟨rfl, List.suffix_rfl⟩) steps k

theorem quiet_followTone (k : Console) : k.Quiet k.followTone := by
  unfold followTone
  split
  · exact .refl k
  · exact ⟨rfl, List.suffix_cons _ _⟩

/-- A pass as far as the picture. -/
def ready (steps : Nat) (k : Console) (events : List Event) : Except Stop Console := do
  let k ← { k with pass := k.pass + 1 }.handleAll events
  let k ← k.move steps
  pure k.followTone

theorem run_eq (k : Console) (events : List Event) :
    k.run steps outage events = k.ready steps events >>= present outage := by
  simp only [run, ready, bind_assoc, pure_bind]

theorem quiet_ready (steps : Nat) (k : Console) (events : List Event) :
    k.Quiet (reached (k.ready steps events)) := by
  have rest := reached_bind (quiet_handleAll events { k with pass := k.pass + 1 }) fun k' =>
    reached_bind (f := fun k => pure k.followTone) (quiet_move steps k') quiet_followTone
  exact ⟨rest.calls, rest.transcript⟩

/-! ## What makes calls -/

theorem before_called (c : DisplayCall) (k : Console) :
    k.Before { k with calls := c :: k.calls } := ⟨List.suffix_cons _ _, List.suffix_rfl⟩

theorem before_call (outage : Outage) (c : DisplayCall) (k : Console) :
    k.Before (reached (k.call outage c)) := reached_call before_called outage c k

theorem before_render (outage : Outage) (frame : Frame) (k : Console) :
    k.Before (reached (k.render outage frame)) :=
  reached_render (fun e k _ => (quiet_record e k).before) before_called outage frame k

theorem before_makeWindow (outage : Outage) (scale : Nat) (k : Console) :
    k.Before (reached (k.makeWindow scale outage)) :=
  reached_makeWindow (fun e k _ => (quiet_record e k).before) before_called outage scale k

theorem before_present (outage : Outage) (k : Console) :
    k.Before (reached (k.present outage)) :=
  reached_present (fun e k _ => (quiet_record e k).before)
    (fun _ _ => ⟨List.suffix_rfl, List.suffix_rfl⟩) before_called outage k

theorem before_run (steps : Nat) (outage : Outage) (k : Console) (events : List Event) :
    k.Before (reached (k.run steps outage events)) := by
  rw [run_eq]
  exact reached_bind (quiet_ready steps k events).before (before_present outage)

theorem before_runAll (steps : Nat) (outage : Outage) (passes : List (List Event)) (k : Console) :
    k.Before (reached (k.runAll steps outage passes)) :=
  reached_foldlM (before_run steps outage) passes k

/-! ## One use that fails -/

/-- What is left of `whole` if the `n`-th use of a call fails: all of it if it does not reach that
use, and otherwise a console before its end, somewhere in `place`. -/
inductive Shortened (c : DisplayCall) (n : Nat) (text : String) (place : Console → Prop)
    (whole : Except Stop Console) : Except Stop Console → Prop
  | spared (unused : ¬(reached whole).Had c n) : Shortened c n text place whole whole
  | cut (k : Console) (latest : k.calls.head? = some c) (count : k.calls.count c = n)
      (had : k.Had c n) (before : k.Before (reached whole)) (inside : place k) :
      Shortened c n text place whole (k.fail (.display text))

variable {place place' : Console → Prop}

theorem Shortened.mono (h : Shortened c n text place x y) (wider : ∀ k, place k → place' k) :
    Shortened c n text place' x y := by
  cases h with
  | spared unused => exact .spared unused
  | cut k latest count had before inside => exact .cut k latest count had before (wider k inside)

/-- A cut leaves the session where `y` comes to. -/
theorem Shortened.and_reached (h : Shortened c n text place x y) (there : place' (reached y)) :
    Shortened c n text (fun k => place k ∧ place' k) x y := by
  cases h with
  | spared unused => exact .spared unused
  | cut k latest count had before inside => exact .cut k latest count had before ⟨inside, there⟩

theorem Shortened.bind (h : Shortened c n text place x y)
    (rest : ∀ k, x = .ok k → ¬k.Had c n → Shortened c n text place (f k) (g k))
    (onward : ∀ k : Console, k.Before (reached (f k))) :
    Shortened c n text place (x >>= f) (y >>= g) := by
  cases h with
  | spared unused =>
    cases x with
    | error stop => exact .spared unused
    | ok k => exact rest k rfl unused
  | cut k latest count had before inside =>
    exact .cut k latest count had (reached_bind before onward) inside

theorem call_of_hit (count : (c :: k.calls).count c = n) :
    k.call (.single c n text) c = { k with calls := c :: k.calls }.fail (.display text) := by
  simp only [call, Outage.single, count, and_self, if_true]

theorem call_of_miss {c' : DisplayCall} (miss : ¬(c' = c ∧ (c' :: k.calls).count c' = n)) :
    k.call (.single c n text) c' = k.call .none c' := by
  simp only [call, Outage.single, Outage.none, miss, if_false]

theorem shortened_call (unused : ¬k.Had c n) (c' : DisplayCall)
    (inside : c' = c → place { k with calls := c' :: k.calls }) :
    Shortened c n text place (k.call .none c') (k.call (.single c n text) c') := by
  by_cases hit : c' = c ∧ (c' :: k.calls).count c' = n
  · obtain ⟨rfl, count⟩ := hit
    rw [call_of_hit count]
    have used : 1 ≤ n := count ▸ List.count_pos_iff.mpr List.mem_cons_self
    exact .cut _ rfl count ⟨used, count.ge⟩ (.refl _) (inside rfl)
  · rw [call_of_miss hit]
    refine .spared fun had => ?_
    obtain ⟨used, made⟩ := had
    change n ≤ (c' :: k.calls).count c at made
    by_cases own : c' = c
    · subst own
      rw [List.count_cons_self] at made hit
      have : ¬n ≤ k.calls.count c' := fun earlier => unused ⟨used, earlier⟩
      exact hit ⟨rfl, by omega⟩
    · rw [List.count_cons_of_ne own] at made
      exact unused ⟨used, made⟩

/-- A console `k` that came just short of showing the picture that `shown` shows. -/
def JustBefore (shown k : Console) : Prop :=
  ∃ calls frame, shown = { k with calls, transcript := .picture k.pass frame :: k.transcript }

theorem shortened_render (unused : ¬k.Had c n) (frame : Frame) :
    Shortened c n text (fun k' => c.renders = true ∧ ∃ calls, k' = { k with calls })
      (k.render .none frame) (k.render (.single c n text) frame) := by
  refine (shortened_call unused .texture fun is => ⟨is ▸ rfl, _, rfl⟩).bind
    (fun k₁ made unused => ?_) fun k => reached_bind (before_call _ _ k) fun k =>
      reached_bind (before_call _ _ k) fun k => (quiet_record _ k).before
  cases call_eq_ok made
  refine (shortened_call unused .update fun is => ⟨is ▸ rfl, _, rfl⟩).bind
    (fun k₂ made unused => ?_) fun k => reached_bind (before_call _ _ k) fun k =>
      (quiet_record _ k).before
  cases call_eq_ok made
  refine (shortened_call unused .copy fun is => ⟨is ▸ rfl, _, rfl⟩).bind
    (fun k₃ made unused => ?_) fun k => (quiet_record _ k).before
  cases call_eq_ok made
  exact .spared unused

theorem shortened_present (unused : ¬k.Had c n) :
    Shortened c n text (fun k' => c.renders = true ∧
        ∃ shown, k.present .none = .ok shown ∧ shown.JustBefore k')
      (k.present .none) (k.present (.single c n text)) := by
  unfold present
  split
  · exact .spared unused
  · next frame pending =>
    have taken : ¬(k.operate .takeFrame).Had c n := unused
    refine (shortened_render taken frame).mono fun k' => ?_
    rintro ⟨renders, calls, rfl⟩
    exact ⟨renders, _, rfl, _, frame, rfl⟩

theorem shortened_run (unused : ¬k.Had c n) (events : List Event) :
    Shortened c n text (fun k' => c.renders = true ∧
        ∃ shown, k.run steps .none events = .ok shown ∧ shown.JustBefore k')
      (k.run steps .none events) (k.run steps (.single c n text) events) := by
  rw [run_eq, run_eq]
  have quiet := quiet_ready steps k events
  -- no call is made as far as the picture, so a pass that ends there is the same for both
  cases readied : k.ready steps events with
  | error stop =>
    rw [readied] at quiet
    exact .spared fun had => unused (quiet.had_iff.mp had)
  | ok k₁ =>
    rw [readied] at quiet
    exact shortened_present fun had => unused (quiet.had_iff.mp had)

theorem shortened_runAll (unused : ¬k.Had c n) (passes : List (List Event)) :
    Shortened c n text (fun k' => c.renders = true ∧ ∃ done shown, done <+: passes ∧
        k.runAll steps .none done = .ok shown ∧
        shown.Before (reached (k.runAll steps .none passes)) ∧ shown.JustBefore k')
      (k.runAll steps .none passes) (k.runAll steps (.single c n text) passes) := by
  induction passes generalizing k with
  | nil => exact .spared unused
  | cons events passes ih =>
    have unroll (outage : Outage) (passes : List (List Event)) :
        k.runAll steps outage (events :: passes) =
          k.run steps outage events >>= fun k => k.runAll steps outage passes := rfl
    -- the use that fails is in the first pass or in a later one
    refine ((shortened_run unused events).mono fun k' => ?_).bind (fun next ran unused =>
      (ih unused).mono fun k' => ?_) (before_runAll steps .none passes)
    · rintro ⟨renders, shown, ran, just⟩
      refine ⟨renders, [events], shown, ?_, ?_, ?_, just⟩
      · exact List.prefix_append [events] passes
      · rw [unroll, ran]
        rfl
      · rw [unroll, ran]
        exact before_runAll steps .none passes shown
    · rintro ⟨renders, done, shown, first, runs, before, just⟩
      refine ⟨renders, events :: done, shown, ?_, ?_, ?_, just⟩
      · exact (List.prefix_cons_inj events).mpr first
      · rw [unroll, ran]
        exact runs
      · rw [unroll, ran]
        exact before

theorem shortened_makeWindow (unused : ¬k.Had c n) (scale : Nat)
    (inside : c = .window → ∀ k, place k) :
    Shortened c n text place (k.makeWindow scale .none)
      (k.makeWindow scale (.single c n text)) := by
  unfold makeWindow
  dsimp only
  split
  · exact shortened_call (k := k.record _) unused .window fun is => inside is.symm _
  · exact .spared unused

theorem shortened_openWindow (unused : ¬k.Had c n) (scale : Nat) :
    Shortened c n text (fun k' => c.renders = true →
        ∃ shown, k.openWindow scale .none = .ok shown ∧ shown.JustBefore k')
      (k.openWindow scale .none) (k.openWindow scale (.single c n text)) := by
  have behind := before_call .none .events
  have dark (k : Console) := reached_bind (f := call .none .events)
    ((quiet_record (.notice (.opened scale)) k).before.trans (before_render .none Frame.blank _))
    behind
  have draws (k : Console) := reached_bind (before_call .none .renderer k) dark
  have frames (k : Console) := reached_bind (before_makeWindow .none scale k) draws
  have sees (k : Console) := reached_bind (before_call .none .video k) frames
  refine (shortened_call unused .init ?_).bind (fun k₁ init unused => ?_) sees
  · rintro rfl
    exact nofun
  refine (shortened_call unused .video ?_).bind (fun k₂ video unused => ?_) frames
  · rintro rfl
    exact nofun
  refine (shortened_makeWindow unused scale ?_).bind (fun k₃ window unused => ?_) draws
  · rintro rfl k
    exact nofun
  refine (shortened_call unused .renderer ?_).bind (fun k₄ renderer unused => ?_) dark
  · rintro rfl
    exact nofun
  refine ((shortened_render (k := k₄.record _) unused _).mono fun k' => ?_).bind
    (fun k₅ shows unused => ?_) behind
  · rintro ⟨-, calls, rfl⟩ -
    exact ⟨_, bind_eq_ok.mpr ⟨k₁, init, bind_eq_ok.mpr ⟨k₂, video, bind_eq_ok.mpr
      ⟨k₃, window, bind_eq_ok.mpr ⟨k₄, renderer, rfl⟩⟩⟩⟩, _, Frame.blank, rfl⟩
  · refine shortened_call unused .events ?_
    rintro rfl
    exact nofun

/-- The machine has not been touched, and no pass has begun. -/
structure Idle (k k' : Console) : Prop where
  machine : k'.machine = k.machine
  pass : k'.pass = k.pass

instance : IsPreorder Console Idle where
  refl _ := ⟨rfl, rfl⟩
  trans _ _ _ h h' := ⟨h'.machine.trans h.machine, h'.pass.trans h.pass⟩

theorem idle_openWindow (outage : Outage) (scale : Nat) (k : Console) :
    k.Idle (reached (k.openWindow scale outage)) :=
  reached_openWindow (fun _ _ _ => ⟨rfl, rfl⟩) (fun _ _ => ⟨rfl, rfl⟩) outage scale k

theorem shortened_session (text : String) (unused : ¬k.Had c n) (s : Settings)
    (passes : List (List Event)) :
    Shortened c n text (fun k' => if c.renders then
          ∃ done shown, done <+: passes ∧
            (k.openWindow s.scale .none >>= runAll s.stepsPerPass .none done) = .ok shown ∧
            shown.Before (reached
              (k.openWindow s.scale .none >>= runAll s.stepsPerPass .none passes)) ∧
            shown.JustBefore k'
        else k.Idle k')
      (k.openWindow s.scale .none >>= runAll s.stepsPerPass .none passes)
      (k.openWindow s.scale (.single c n text) >>=
        runAll s.stepsPerPass (.single c n text) passes) := by
  have opening := (shortened_openWindow unused s.scale).and_reached
    (idle_openWindow (.single c n text) s.scale k)
  refine (opening.mono fun k' => ?_).bind (fun opened opens unused =>
    (shortened_runAll unused passes).mono fun k' => ?_) (before_runAll _ .none passes)
  · rintro ⟨late, idle⟩
    split
    · next renders =>
      obtain ⟨shown, opens, just⟩ := late renders
      rw [opens]
      exact ⟨[], shown, List.nil_prefix, rfl, before_runAll _ .none passes shown, just⟩
    · exact idle
  · rintro ⟨renders, done, shown, first, runs, before, just⟩
    rw [if_pos renders, opens]
    exact ⟨done, shown, first, runs, before, just⟩

end Console

/-- The stop of a session: its window is closed if nothing failed. -/
def ended : Except Stop Console → Stop
  | .error stop => stop
  | .ok k => k.closed

theorem quiet_ended (x : Except Stop Console) : (reached x).Quiet (ended x).console := by
  cases x with
  | error stop => exact .refl _
  | ok k => exact Console.quiet_record _ k

theorem play_eq_ended (s : Settings) (outage : Outage) (passes : List (List Event)) (k : Console) :
    k.play s outage passes =
      ended (k.openWindow s.scale outage >>= Console.runAll s.stepsPerPass outage passes) := by
  unfold Console.play ended
  rfl

/-- What is left of a session that the `n`-th use of a call ended. -/
structure CutShort (c : DisplayCall) (n : Nat) (text : String) (whole cut : Stop) : Prop where
  failure : cut.failure = some (.display text)
  call : cut.console.calls.head? = some c
  use : cut.console.calls.count c = n
  transcript : cut.report.transcript <+: whole.report.transcript
  pictures : cut.report.pictures <+: whole.report.pictures
  notices : cut.report.notices <+: whole.report.notices

theorem Console.Shortened.ended {c : DisplayCall} {n : Nat} {text : String}
    {place : Console → Prop} {x y : Except Stop Console}
    (h : Console.Shortened c n text place x y) :
    (¬(ended x).console.Had c n → ended y = ended x) ∧
      ((ended x).console.Had c n →
        CutShort c n text (ended x) (ended y) ∧ place (ended y).console) := by
  have close := quiet_ended x
  cases h with
  | spared unused => exact ⟨fun _ => rfl, fun had => absurd (close.had_iff.mp had) unused⟩
  | cut k latest count had before inside =>
    have before := before.trans close.before
    refine ⟨fun unused => absurd (before.had had) unused, fun _ => ⟨?_, inside⟩⟩
    have seen := List.reverse_prefix.mpr before.transcript
    exact ⟨rfl, latest, count, seen, seen.filterMap _, seen.filterMap _⟩

theorem load_eq_error {s : Settings} {unseeded : WordStream} {file : Except IoError Reader}
    {f : Failure} (h : load s unseeded file = .error f) :
    (∃ cause, f = .unopened s.path cause) ∨ ∃ cause, f = .unloaded s.path cause := by
  unfold load at h
  split at h
  · next cause =>
    cases h
    exact .inl ⟨cause, rfl⟩
  · split at h
    · next cause _ =>
      cases h
      exact .inr ⟨cause, rfl⟩
    · exact nomatch h

theorem pass_of_consoleAfter {s : Settings} {unseeded : WordStream} {file : Except IoError Reader}
    {outage : Outage} {passes : List (List Event)} {k : Console}
    (h : consoleAfter s unseeded file outage passes = some k) : k.pass = passes.length := by
  obtain ⟨machine, notices, opened, loaded, opens, runs⟩ := consoleAfter_eq_some h
  obtain ⟨p, shown, shows⟩ := (Console.shows_openWindow loaded opens).runAll runs
  exact shows.pass_eq

end Chip8.Session
