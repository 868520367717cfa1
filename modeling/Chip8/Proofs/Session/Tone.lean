import Chip8.Proofs.Session.Outages
import Mathlib.Data.List.Chain
import Mathlib.Data.List.ReduceOption

/-!
# The tone in the log

A session writes into its log when the tone starts and when it stops. It remembers what it wrote
last, and only a pass that moved the machine compares that with the sound timer: so the two kinds of
lines take turns, a pass writes at most one, and behind a completed pass the last line tells whether
the timer runs, however it came to.
-/

namespace Chip8

namespace Notice

private theorem debug_of_line {n : Notice} {text : String} (h : n.line = "DEBUG " ++ text) :
    n.level = .debug ∧ n.text = text := by
  have letters := congrArg String.toList h
  simp only [line, String.toList_append] at letters
  cases level : n.level with
  | debug =>
    rw [level] at letters
    exact ⟨rfl, String.toList_injective (List.append_cancel_left letters)⟩
  | _ =>
    rw [level] at letters
    exact absurd (List.cons.inj letters).1 (by decide)

/-- Among the records of the level for debugging, those of the tone begin with a letter of their
own. -/
private theorem tone_of_initial {n : Notice} (debug : n.level = .debug)
    (initial : n.text.toList.head? = some 't') : ∃ on, n = .tone on := by
  cases n with
  | tone on => exact ⟨on, rfl⟩
  | reset =>
    change "machine reset".toList.head? = _ at initial
    simp at initial
  | resumed key x =>
    change ("key " ++ hex 1 key ++ " resumes wait on V" ++ hex 1 x).toList.head? = _ at initial
    simp at initial
  | skipped op pc =>
    change ("skipping unsupported opcode " ++ hex 4 op.toNat ++ " at " ++
      hex 3 pc.toNat).toList.head? = _ at initial
    simp at initial
  | waiting x =>
    change ("waiting for a key press into V" ++ hex 1 x).toList.head? = _ at initial
    simp at initial
  | opened scale =>
    change ("opened " ++ toString scale ++ "x scaled window").toList.head? = _ at initial
    simp at initial
  | _ => exact nomatch debug

theorem line_eq_tone_iff (n : Notice) (on : Bool) :
    n.line = (tone on).line ↔ n = .tone on := by
  constructor
  · intro h
    have same : (tone on).line = "DEBUG " ++ (tone on).text := rfl
    obtain ⟨debug, text⟩ := debug_of_line (h.trans same)
    obtain ⟨on', rfl⟩ := tone_of_initial debug (by rw [text]; cases on <;> rfl)
    cases on <;> cases on'
    · rfl
    · exact absurd text (by decide)
    · exact absurd text (by decide)
    · rfl
  · rintro rfl
    rfl

end Notice

namespace Session

/-- The lines of a log that is kept at `limit`, from what was seen of a session. -/
def logLines (limit : Level) (seen : List Entry) : List String :=
  seen.filterMap fun
    | .notice n => if limit.shownAt n.level then some n.line else none
    | _ => none

/-- What a line of the log says of the tone. -/
def toneOf? (line : String) : Option Bool :=
  if line = "DEBUG tone on" then some true
  else if line = "DEBUG tone off" then some false
  else none

/-- What the log for debugging says of the tone, line by line. -/
def toneLines (seen : List Entry) : List Bool := (logLines .debug seen).filterMap toneOf?

theorem toneOf?_line (n : Notice) : toneOf? n.line = n.tone? := by
  have on : "DEBUG tone on" = (Notice.tone true).line := rfl
  have off : "DEBUG tone off" = (Notice.tone false).line := rfl
  simp only [toneOf?, on, off, Notice.line_eq_tone_iff]
  cases n with
  | tone on => cases on <;> rfl
  | _ => rfl

theorem toneLines_eq (seen : List Entry) : toneLines seen = seen.filterMap Entry.tone? := by
  rw [toneLines, logLines, List.filterMap_filterMap]
  congr 1
  funext e
  cases e with
  | notice n =>
    change Option.bind (if _ then _ else _) _ = n.tone?
    rw [← toneOf?_line]
    split
    · rfl
    · next hidden =>
      -- what such a log does not hold are the traces, which say nothing of the tone
      cases n with
      | traced => rfl
      | _ => exact absurd rfl hidden
  | _ => rfl

variable {s : Settings} {unseeded : WordStream} {file : Except IoError Reader} {outage : Outage}
  {k k' : Console} {steps : Nat} {events : List Event} {passes done : List (List Event)}

namespace Console

/-- What has been said of the tone so far. -/
def tones (k : Console) : List Bool := toneLines k.transcript.reverse

theorem tones_record (e : Entry) (k : Console) :
    (k.record e).tones = k.tones ++ e.tone?.toList := by
  rw [tones, tones, toneLines_eq, toneLines_eq, record, List.reverse_cons, List.filterMap_append]
  cases told : e.tone? <;> simp [told]

/-- Nothing was said of the tone. -/
structure Mute (k k' : Console) : Prop where
  tones : k'.tones = k.tones
  sounding : k'.sounding = k.sounding

instance : IsPreorder Console Mute where
  refl _ := ⟨rfl, rfl⟩
  trans _ _ _ h h' := ⟨h'.tones.trans h.tones, h'.sounding.trans h.sounding⟩

theorem mute_record (e : Entry) (k : Console) (silent : e.tone? = none) :
    k.Mute (k.record e) :=
  ⟨by rw [tones_record, silent, Option.toList_none, List.append_nil], rfl⟩

theorem mute_openWindow (outage : Outage) (scale : Nat) (k : Console) :
    k.Mute (reached (k.openWindow scale outage)) :=
  reached_openWindow mute_record (fun _ _ => ⟨rfl, rfl⟩) outage scale k

theorem mute_handleAll (events : List Event) (k : Console) :
    k.Mute (reached (k.handleAll events)) :=
  reached_handleAll mute_record (fun _ _ => ⟨rfl, rfl⟩) (fun _ _ => ⟨rfl, rfl⟩) events k

theorem mute_move (steps : Nat) (k : Console) : k.Mute (reached (k.move steps)) :=
  reached_move mute_record (fun _ _ => ⟨rfl, rfl⟩) steps k

theorem mute_present (outage : Outage) (k : Console) : k.Mute (reached (k.present outage)) :=
  reached_present mute_record (fun _ _ => ⟨rfl, rfl⟩) (fun _ _ => ⟨rfl, rfl⟩) outage k

/-- A pass says something of the tone only where it follows it, which it does once if it comes so
far. -/
theorem run_follows (steps : Nat) (outage : Outage) (k : Console) (events : List Event) :
    ∃ moved : Console, k.Mute moved ∧
      (moved.Mute (reached (k.run steps outage events)) ∨
        moved.followTone.Mute (reached (k.run steps outage events))) := by
  have begun : k.Mute { k with pass := k.pass + 1 } := ⟨rfl, rfl⟩
  have moving := trans_of Mute begun (reached_bind (mute_handleAll events _) (mute_move steps))
  have split : k.run steps outage events =
      ({ k with pass := k.pass + 1 }.handleAll events >>= move steps) >>=
        fun k => k.followTone.present outage := by
    simp only [run, bind_assoc]
  rw [split]
  cases moves : { k with pass := k.pass + 1 }.handleAll events >>= move steps with
  | error stop =>
    rw [moves] at moving
    exact ⟨stop.console, moving, .inl (refl_of Mute _)⟩
  | ok moved =>
    rw [moves] at moving
    exact ⟨moved, moving, .inr (mute_present outage moved.followTone)⟩

theorem tones_followTone (k : Console) :
    ∃ line : Option Bool, k.followTone.tones = k.tones ++ line.toList := by
  unfold followTone
  split
  · exact ⟨none, (List.append_nil _).symm⟩
  · exact ⟨some k.machine.sounding, tones_record (.notice (.tone k.machine.sounding)) k⟩

theorem sounding_followTone (k : Console) : k.followTone.sounding = k.machine.sounding := by
  unfold followTone
  split
  · next same => exact same.symm
  · rfl

/-- The lines on the tone take turns, and the last one is what the console remembers. -/
structure InTune (k : Console) : Prop where
  first : k.tones.head? ≠ some false
  turns : k.tones.IsChain (· ≠ ·)
  last : k.tones.getLast?.getD false = k.sounding

theorem InTune.of_mute (h : k.InTune) (mute : k.Mute k') : k'.InTune := by
  obtain ⟨first, turns, last⟩ := h
  rw [← mute.tones] at first turns last
  exact ⟨first, turns, last.trans mute.sounding.symm⟩

theorem InTune.followTone (h : k.InTune) : k.followTone.InTune := by
  by_cases same : k.machine.sounding = k.sounding
  · rwa [Console.followTone, if_pos same]
  · have tones : k.followTone.tones = k.tones ++ [k.machine.sounding] := by
      rw [Console.followTone, if_neg same]
      exact tones_record (.notice (.tone k.machine.sounding)) k
    obtain ⟨first, turns, last⟩ := h
    refine ⟨?_, ?_, ?_⟩
    · rw [tones]
      cases told : k.tones with
      | nil =>
        -- nothing was said yet, so the tone was off and starts now
        rw [told] at last
        intro starts
        exact same ((Option.some.inj starts).trans last)
      | cons on rest =>
        rw [told] at first
        exact first
    · rw [tones, List.isChain_append]
      refine ⟨turns, .singleton _, ?_⟩
      intro x said y now both
      rw [Option.mem_def.mp said] at last
      exact same ((Option.some.inj now).trans (both.symm.trans last))
    · rw [tones, sounding_followTone, List.getLast?_concat]
      rfl

theorem InTune.run (h : k.InTune) (steps : Nat) (outage : Outage) (events : List Event) :
    (reached (k.run steps outage events)).InTune := by
  obtain ⟨moved, moves, rest | rest⟩ := run_follows steps outage k events
  · exact (h.of_mute moves).of_mute rest
  · exact (h.of_mute moves).followTone.of_mute rest

theorem tones_run (steps : Nat) (outage : Outage) (k : Console) (events : List Event) :
    ∃ line : Option Bool,
      (reached (k.run steps outage events)).tones = k.tones ++ line.toList := by
  obtain ⟨moved, moves, rest | rest⟩ := run_follows steps outage k events
  · exact ⟨none, by rw [rest.tones, moves.tones, Option.toList_none, List.append_nil]⟩
  · obtain ⟨line, follows⟩ := tones_followTone moved
    exact ⟨line, by rw [rest.tones, follows, moves.tones]⟩

private theorem reduceOption_cons (line : Option Bool) (each : List (Option Bool)) :
    (line :: each).reduceOption = line.toList ++ each.reduceOption := by
  rw [← List.reduceOption_singleton, ← List.reduceOption_append, List.singleton_append]

/-- Passes say each at most one thing of the tone, one after the other, up to the first that is not
completed. -/
theorem tones_runAll (steps : Nat) (outage : Outage) (passes : List (List Event)) (k : Console) :
    ∃ each : List (Option Bool), each.length ≤ passes.length ∧
      (reached (k.runAll steps outage passes)).tones = k.tones ++ each.reduceOption ∧
      ∀ done, done <+: passes →
        (∀ stop, k.runAll steps outage done = .error stop → each.length ≤ done.length) ∧
        ∀ k', k.runAll steps outage done = .ok k' →
          k'.tones = k.tones ++ (each.take done.length).reduceOption := by
  have still (k : Console) : k.runAll steps outage [] = .ok k := rfl
  have untold (k : Console) : k.tones = k.tones ++ [].reduceOption :=
    (List.append_nil k.tones).symm
  have atStart (k : Console) (each : List (Option Bool)) :
      (∀ stop, k.runAll steps outage [] = .error stop → each.length ≤ 0) ∧
        ∀ k', k.runAll steps outage [] = .ok k' →
          k'.tones = k.tones ++ (each.take 0).reduceOption := by
    rw [still]
    constructor
    · intro stop ends
      exact nomatch ends
    · intro k' stays
      cases stays
      exact untold k
  induction passes generalizing k with
  | nil =>
    refine ⟨[], Nat.le_refl 0, by rw [still]; exact untold k, ?_⟩
    intro done before
    cases List.prefix_nil.mp before
    exact atStart k []
  | cons events passes ih =>
    have unroll (passes : List (List Event)) : k.runAll steps outage (events :: passes) =
        k.run steps outage events >>= fun k => k.runAll steps outage passes := rfl
    obtain ⟨line, first⟩ := tones_run steps outage k events
    cases ran : k.run steps outage events with
    | error stop =>
      have ends (passes : List (List Event)) :
          k.runAll steps outage (events :: passes) = .error stop := by
        rw [unroll, ran]
        rfl
      rw [ran] at first
      refine ⟨[line], by simp, ?_, ?_⟩
      · rw [ends, List.reduceOption_singleton]
        exact first
      · intro done before
        cases done with
        | nil => exact atStart k [line]
        | cons events' done =>
          obtain ⟨rfl, -⟩ := List.cons_prefix_cons.mp before
          rw [ends]
          refine ⟨fun _ _ => by simp, ?_⟩
          intro k' goes
          exact nomatch goes
    | ok next =>
      have goesOn (passes : List (List Event)) :
          k.runAll steps outage (events :: passes) = next.runAll steps outage passes := by
        rw [unroll, ran]
        rfl
      rw [ran] at first
      obtain ⟨each, le, all, later⟩ := ih next
      refine ⟨line :: each, Nat.succ_le_succ le, ?_, ?_⟩
      · rw [goesOn, reduceOption_cons, ← List.append_assoc, ← first]
        exact all
      · intro done before
        cases done with
        | nil => exact atStart k (line :: each)
        | cons events' done =>
          obtain ⟨rfl, earlier⟩ := List.cons_prefix_cons.mp before
          obtain ⟨stops, told⟩ := later done earlier
          rw [goesOn, List.length_cons, List.length_cons, List.take_succ_cons, reduceOption_cons,
            ← List.append_assoc, ← first]
          exact ⟨fun stop is => Nat.succ_le_succ (stops stop is), told⟩

theorem InTune.runAll (h : k.InTune) (steps : Nat) (outage : Outage)
    (passes : List (List Event)) : (reached (k.runAll steps outage passes)).InTune := by
  induction passes generalizing k with
  | nil => exact h
  | cons events passes ih =>
    have next := h.run steps outage events
    change (reached (k.run steps outage events >>= fun k => k.runAll steps outage passes)).InTune
    cases ran : k.run steps outage events with
    | error stop =>
      rw [ran] at next
      exact next
    | ok k' =>
      rw [ran] at next
      exact ih next

/-- A completed pass leaves the console remembering whether its machine sounds. -/
theorem sounding_run (ran : k.run steps outage events = .ok k') :
    k'.sounding = k'.machine.sounding := by
  obtain ⟨handled, moved, -, -, presents⟩ := run_eq_ok.mp ran
  have mute := mute_present outage moved.followTone
  rw [presents] at mute
  have remembers : k'.sounding = moved.followTone.sounding := mute.sounding
  rw [remembers, sounding_followTone, machine_present presents, machine_followTone]
  rfl

theorem sounding_runAll (start : k.sounding = k.machine.sounding)
    (ran : k.runAll steps outage passes = .ok k') : k'.sounding = k'.machine.sounding := by
  induction passes generalizing k with
  | nil =>
    cases ran
    exact start
  | cons events passes ih =>
    obtain ⟨next, first, rest⟩ := bind_eq_ok.mp ran
    exact ih (sounding_run first) rest

end Console

theorem tone?_load {machine : Machine} {notices : List Notice} {n : Notice}
    (loaded : load s unseeded file = .ok (machine, notices)) (inside : n ∈ notices) :
    n.tone? = none := by
  unfold load at loaded
  split at loaded
  · exact nomatch loaded
  · split at loaded
    · exact nomatch loaded
    · cases loaded
      rcases List.mem_append.mp inside with read | told
      · exact Machine.tone?_loadRom read
      · cases List.mem_singleton.mp told
        rfl

theorem mute_ended (x : Except Stop Console) : (reached x).Mute (ended x).console := by
  cases x with
  | error stop => exact refl_of Console.Mute _
  | ok k => exact Console.mute_record _ k rfl

/-- Nothing has been said of the tone when the window is opened, or if it is not. -/
theorem mute_opening {machine : Machine} {notices : List Notice}
    (loaded : load s unseeded file = .ok (machine, notices)) (outage : Outage) :
    (Console.start machine []).Mute
      (reached ((Console.start machine notices).openWindow s.scale outage)) := by
  have records :=
    Console.reached_recordAll Console.mute_record (fun _ => tone?_load loaded) (.start machine [])
  have start : (Console.start machine []).recordAll notices = Console.start machine notices := by
    simp [Console.recordAll, Console.start]
  rw [start] at records
  exact trans_of Console.Mute records (Console.mute_openWindow outage s.scale _)

theorem toneLines_of_unopened (unopened : consoleAfter s unseeded file outage [] = none) :
    toneLines (play s unseeded file outage passes).transcript = [] := by
  cases loaded : load s unseeded file with
  | error f => rw [play, loaded]; rfl
  | ok start =>
    obtain ⟨machine, notices⟩ := start
    have mute := mute_opening loaded outage
    cases opens : (Console.start machine notices).openWindow s.scale outage with
    | error stop =>
      rw [opens] at mute
      simp only [play, loaded, Console.play, opens]
      exact mute.tones
    | ok opened =>
      rw [consoleAfter, loaded] at unopened
      dsimp only at unopened
      rw [opens] at unopened
      cases unopened

/-- A session whose window is open goes on from there. -/
theorem play_of_opened {opened : Console}
    (opens : consoleAfter s unseeded file outage [] = some opened) :
    play s unseeded file outage passes =
      (ended (opened.runAll s.stepsPerPass outage passes)).report := by
  obtain ⟨machine, notices, opened', loaded, opens, rest⟩ := consoleAfter_eq_some opens
  cases rest
  simp only [play, loaded, play_eq_ended, opens]
  rfl

theorem silent_of_opened {opened : Console}
    (opens : consoleAfter s unseeded file outage [] = some opened) :
    opened.tones = [] ∧ opened.sounding = false ∧ opened.machine.sounding = false := by
  obtain ⟨machine, notices, opened', loaded, opens, rest⟩ := consoleAfter_eq_some opens
  cases rest
  have mute := mute_opening loaded outage
  rw [opens] at mute
  refine ⟨mute.tones, mute.sounding, ?_⟩
  obtain ⟨program, -, rfl⟩ := load_eq_ok loaded
  obtain ⟨calls, before, rfl⟩ := Console.openWindow_eq_ok opens
  rfl

/-- The log says of the tone what a list with an optional line for each pass says, up to the first
pass that is not completed. The lines take turns, from one that it is on; and when a pass has been
completed, the last line says that it is on just where the sound timer is running. -/
theorem tone_lines_follow_sound (s : Settings) (unseeded : WordStream)
    (file : Except IoError Reader) (outage : Outage) (passes : List (List Event)) :
    ∃ each : List (Option Bool), each.length ≤ passes.length ∧
      toneLines (play s unseeded file outage passes).transcript = each.reduceOption ∧
      each.reduceOption.head? ≠ some false ∧ each.reduceOption.IsChain (· ≠ ·) ∧
      ∀ done, done <+: passes →
        (consoleAfter s unseeded file outage done = none → each.length ≤ done.length) ∧
        ∀ k, consoleAfter s unseeded file outage done = some k →
          let told := (each.take done.length).reduceOption
          toneLines k.transcript.reverse = told ∧
            (told.getLast? = some true ↔ 0 < k.machine.state.sound) := by
  cases opens : consoleAfter s unseeded file outage [] with
  | none =>
    refine ⟨[], Nat.zero_le _, toneLines_of_unopened opens, nofun, .nil, ?_⟩
    intro done _
    refine ⟨fun _ => Nat.zero_le _, ?_⟩
    intro k completed
    rw [← List.nil_append done, consoleAfter_append, opens] at completed
    exact nomatch completed
  | some opened =>
    obtain ⟨untold, still, silent⟩ := silent_of_opened opens
    obtain ⟨each, le, all, goes⟩ :=
      Console.tones_runAll s.stepsPerPass outage passes opened
    rw [untold, List.nil_append] at all
    have start : opened.InTune :=
      ⟨by rw [untold]; exact nofun, by rw [untold]; exact .nil, by rw [untold, still]; rfl⟩
    have inTune := start.runAll s.stepsPerPass outage passes
    refine ⟨each, le, ?_, all ▸ inTune.first, all ▸ inTune.turns, ?_⟩
    · rw [play_of_opened opens, ← all]
      exact (mute_ended _).tones
    intro done before
    obtain ⟨stops, completes⟩ := goes done before
    rw [← List.nil_append done, consoleAfter_append, opens, Option.bind_some, List.nil_append]
    constructor
    · intro uncompleted
      cases ran : opened.runAll s.stepsPerPass outage done with
      | error stop => exact stops stop ran
      | ok k => exact nomatch (ran ▸ uncompleted)
    · intro k completed told
      rw [toOption_eq_some] at completed
      have tones : k.tones = told := by rw [completes k completed, untold, List.nil_append]
      have tuned := start.runAll s.stepsPerPass outage done
      rw [completed] at tuned
      have remembers := Console.sounding_runAll (still.trans silent.symm) completed
      have last : told.getLast?.getD false = (k.machine.state.sound != 0) := by
        rw [← tones]
        exact tuned.last.trans remembers
      have spoken : told.getLast? = some true ↔ told.getLast?.getD false = true := by
        cases told.getLast? <;> simp
      rw [spoken, last, bne_iff_ne, UInt8.pos_iff_ne_zero]
      exact ⟨tones, .rfl⟩

/-- A program that sounds the tone for three counts and then stands still. -/
def beeps : Reader := .ofBytes [0x60, 0x03, 0xF0, 0x18, 0x12, 0x04]

/-- Four passes, in which the tone starts and stops, one that goes back to where it still sounded,
and a reset. -/
def heardAgain : List (List Event) := [[], [], [], [], [.down 8 false], [.up 8, .reset]]

/-- The pass that goes back is heard, and the reset ends it. -/
theorem tone_lines_follow_sound_heardAgain :
    toneLines (play slowest (.ofList []) (.ok beeps) .none heardAgain).transcript =
        [true, false, true, false] ∧
      ∃ k, consoleAfter slowest (.ofList []) (.ok beeps) .none (heardAgain.take 5) = some k ∧
        toneLines k.transcript.reverse = [true, false, true] ∧ 0 < k.machine.state.sound := by
  have ⟨all, part⟩ :
      toneLines (play slowest (.ofList []) (.ok beeps) .none heardAgain).transcript =
        [true, false, true, false] ∧
      (consoleAfter slowest (.ofList []) (.ok beeps) .none (heardAgain.take 5)).map
        (fun k => toneLines k.transcript.reverse) = some [true, false, true] := by
    decide +kernel
  obtain ⟨k, completed, told⟩ := Option.map_eq_some_iff.mp part
  obtain ⟨each, -, -, -, -, follows⟩ :=
    tone_lines_follow_sound slowest (.ofList []) (.ok beeps) .none heardAgain
  obtain ⟨tones, sounds⟩ := (follows _ (List.take_prefix 5 heardAgain)).2 k completed
  refine ⟨all, k, completed, told, sounds.mp ?_⟩
  rw [← tones, told]
  rfl

end Session
end Chip8
