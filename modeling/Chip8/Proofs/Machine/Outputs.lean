import Chip8.Proofs.Machine.Abreast

/-!
# What is only shown

The sound timer is there for the loudspeaker and the mark to draw for the screen. No instruction looks
at either, and nothing that is done to a machine hands them on to anything else, so machines that
differ in them, now and in their saved states, are told apart only by whoever asks for the picture.
Asking for it leaves such a machine behind: it can be done at any time, or never.
-/

namespace Chip8

namespace State

/-- The state without what only the loudspeaker and the screen look at. -/
def hushed (s : State) : State := { s with sound := 0, redraw := false }

def withOutputs (sound : UInt8) (redraw : Bool) (s : State) : State := { s with sound, redraw }

theorem eq_withOutputs_of_hushed_eq {s t : State} (h : t.hushed = s.hushed) :
    t = s.withOutputs t.sound t.redraw := by
  change t.hushed.withOutputs t.sound t.redraw = s.hushed.withOutputs t.sound t.redraw
  rw [h]

end State

namespace Instruction

variable (i : Instruction) (s : State) (sound : UInt8) (redraw : Bool)

theorem fault?_withOutputs : i.fault? (s.withOutputs sound redraw) = i.fault? s := by
  cases i <;> rfl

theorem hushed_apply_withOutputs (d : Dialect) (w : WordStream) :
    (i.apply d w (s.withOutputs sound redraw)).hushed = (i.apply d w s).hushed := by
  cases i with
  | loadRegisters x => simp only [apply, State.passIndex, State.loadFirst, State.next]; rfl
  | _ => rfl

end Instruction

/-- Whether an operation is one of those that a screen is served with. -/
def Operation.presents : Operation → Bool
  | takeFrame | clearRedraw => true
  | _ => false

namespace Machine

variable {m m' m'' : Machine} {os os' : List Operation}

/-- Two machines that differ in nothing but the sound timers and the marks to draw, their own and
those of their saved states. -/
structure AlikeButOutputs (m m' : Machine) : Prop where
  state : m'.state.hushed = m.state.hushed
  saved : m'.saved.map State.hushed = m.saved.map State.hushed
  program : m'.program = m.program
  dialect : m'.dialect = m.dialect
  random : m'.random = m.random

def withOutputs (sound : UInt8) (redraw : Bool) (m : Machine) : Machine :=
  { m with state := m.state.withOutputs sound redraw }

theorem press_withOutputs (k : UInt8) (sound : UInt8) (redraw : Bool) (m : Machine) :
    (m.withOutputs sound redraw).press k = (m.press k).withOutputs sound redraw := by
  unfold press
  split
  · rfl
  · next key _ =>
    cases awaits : m.state.awaiting <;> cases held : m.state.keypad.get key <;>
      simp [withOutputs, State.withOutputs, awaits, held]

theorem release_withOutputs (k : UInt8) (sound : UInt8) (redraw : Bool) (m : Machine) :
    (m.withOutputs sound redraw).release k = (m.release k).withOutputs sound redraw := by
  unfold release
  split <;> rfl

theorem load_withOutputs (program : List UInt8) (sound : UInt8) (redraw : Bool) (m : Machine) :
    (m.withOutputs sound redraw).load program =
      (m.load program).map (·.withOutputs sound redraw) := by
  unfold load
  split <;> rfl

/-- Apart from a step, a rewind and a reset, an operation does the same whatever the outputs are,
but that it may count one down, or read the other. -/
theorem perform_withOutputs {o : Operation} (step : o ≠ .step) (rewind : o ≠ .rewind)
    (reset : o ≠ .reset) (sound : UInt8) (redraw : Bool) (m : Machine) :
    (o.presents = false → ((m.withOutputs sound redraw).perform o).1 = (m.perform o).1) ∧
      ∃ sound' redraw',
        ((m.withOutputs sound redraw).perform o).2 = (m.perform o).2.withOutputs sound' redraw' := by
  cases o with
  | step => contradiction
  | rewind => contradiction
  | reset => contradiction
  | press k => exact ⟨fun _ => rfl, _, _, press_withOutputs k sound redraw m⟩
  | release k => exact ⟨fun _ => rfl, _, _, release_withOutputs k sound redraw m⟩
  | load program =>
    simp only [perform, load_withOutputs]
    cases m.load program <;> exact ⟨fun _ => rfl, _, _, rfl⟩
  | loadRom file =>
    simp only [perform, loadRom]
    cases file.readUpTo (romLimit + 1) with
    | error e => exact ⟨fun _ => rfl, _, _, rfl⟩
    | ok program =>
      simp only [load_withOutputs]
      cases m.load program <;> exact ⟨fun _ => rfl, _, _, rfl⟩
  | tick => exact ⟨fun _ => rfl, countDown sound, redraw, rfl⟩
  | takeFrame => exact ⟨fun hidden => absurd hidden (by decide), sound, false, rfl⟩
  | clearRedraw => exact ⟨fun hidden => absurd hidden (by decide), sound, false, rfl⟩
  | setDialect d => exact ⟨fun _ => rfl, sound, redraw, rfl⟩
  | setRandom w => exact ⟨fun _ => rfl, sound, redraw, rfl⟩

namespace AlikeButOutputs

theorem refl (m : Machine) : m.AlikeButOutputs m := ⟨rfl, rfl, rfl, rfl, rfl⟩

theorem symm (h : m.AlikeButOutputs m') : m'.AlikeButOutputs m :=
  ⟨h.state.symm, h.saved.symm, h.program.symm, h.dialect.symm, h.random.symm⟩

theorem trans (h : m.AlikeButOutputs m') (h' : m'.AlikeButOutputs m'') : m.AlikeButOutputs m'' :=
  ⟨h'.state.trans h.state, h'.saved.trans h.saved, h'.program.trans h.program,
    h'.dialect.trans h.dialect, h'.random.trans h.random⟩

theorem upcoming (h : m.AlikeButOutputs m') : m'.upcoming = m.upcoming := by
  rw [Machine.upcoming, State.eq_withOutputs_of_hushed_eq h.state]
  simp only [Instruction.fault?_withOutputs]
  rfl

theorem run (h : m.AlikeButOutputs m') (i : Instruction) :
    (m.run i).AlikeButOutputs (m'.run i) where
  state := by
    simp only [Machine.run, h.dialect, h.random]
    rw [State.eq_withOutputs_of_hushed_eq h.state, Instruction.hushed_apply_withOutputs]
  saved := by
    rw [saved_run, saved_run, List.map_take, List.map_take, List.map_cons, List.map_cons, h.state,
      h.saved]
  program := h.program
  dialect := h.dialect
  random := congrArg (·.advance i.draws) h.random

theorem step (h : m.AlikeButOutputs m') :
    (m'.perform .step).1 = (m.perform .step).1 ∧
      (m.perform .step).2.AlikeButOutputs (m'.perform .step).2 := by
  rcases step_cases_of_upcoming_eq h.upcoming with
    ⟨i, -, stepped, stepped'⟩ | ⟨o, -, stepped, stepped'⟩
  · rw [Machine.perform, Machine.perform, stepped, stepped']
    exact ⟨rfl, h.run i⟩
  · rw [Machine.perform, Machine.perform, stepped, stepped']
    exact ⟨rfl, h⟩

/-- A rewind brings back a state whose outputs may differ, and marks its picture in both machines. -/
theorem rewind (h : m.AlikeButOutputs m') :
    (m'.perform .rewind).1 = (m.perform .rewind).1 ∧
      (m.perform .rewind).2.AlikeButOutputs (m'.perform .rewind).2 := by
  rcases rewind_cases_of_saved_eq h.saved with
    ⟨same, same'⟩ | ⟨s, s', back, back', went, went', alike, older, shape, shape'⟩
  · rw [same, same']
    exact ⟨rfl, h⟩
  · have keys : m'.state.keypad = m.state.keypad := by
      rw [State.eq_withOutputs_of_hushed_eq h.state]
      rfl
    rw [went, went']
    refine ⟨rfl, ?_, older, ?_, ?_, ?_⟩
    · rw [shape, shape', keys]
      exact congrArg (fun t : State => { t with keypad := m.state.keypad }) alike
    · rw [shape, shape', h.program]
    · rw [shape, shape', h.dialect]
    · rw [shape, shape', h.random]

theorem perform_other (h : m.AlikeButOutputs m') {o : Operation} (step : o ≠ .step)
    (rewind : o ≠ .rewind) :
    (o.presents = false → (m'.perform o).1 = (m.perform o).1) ∧
      (m.perform o).2.AlikeButOutputs (m'.perform o).2 := by
  by_cases reset : o = .reset
  · subst reset
    refine ⟨fun _ => rfl, ?_, rfl, h.program, h.dialect, h.random⟩
    exact congrArg (State.hushed <| State.powerOn.install ·) h.program
  by_cases set : ∃ d, o = .setDialect d
  · obtain ⟨d, rfl⟩ := set
    exact ⟨fun _ => rfl, h.state, h.saved, h.program, rfl, h.random⟩
  have kept : ∀ d, o ≠ .setDialect d := fun d is => set ⟨d, is⟩
  -- what is left looks at neither the history nor the outputs
  obtain ⟨sound, redraw, shape⟩ : ∃ sound redraw, m' =
      { m.withOutputs sound redraw with dialect := m.dialect, history := m'.history } :=
    ⟨_, _, by
      rw [withOutputs, ← State.eq_withOutputs_of_hushed_eq h.state, ← h.program, ← h.dialect,
        ← h.random]⟩
  have same := perform_with step rewind reset kept m.dialect m'.history (m.withOutputs sound redraw)
  rw [← shape] at same
  obtain ⟨answered, sound', redraw', next⟩ := perform_withOutputs step rewind reset sound redraw m
  rw [same, next]
  refine ⟨answered, rfl, ?_, rfl, (dialect_perform m kept).symm, rfl⟩
  rw [saved_perform_other step rewind reset]
  exact h.saved

/-- Machines that differ in their outputs answer alike, but to whoever asks for the picture, and go
on differing in their outputs only. -/
theorem perform (h : m.AlikeButOutputs m') (o : Operation) :
    (o.presents = false → (m'.perform o).1 = (m.perform o).1) ∧
      (m.perform o).2.AlikeButOutputs (m'.perform o).2 := by
  by_cases step : o = .step
  · subst step
    exact ⟨fun _ => h.step.1, h.step.2⟩
  by_cases rewind : o = .rewind
  · subst rewind
    exact ⟨fun _ => h.rewind.1, h.rewind.2⟩
  exact h.perform_other step rewind

theorem present (m : Machine) {o : Operation} (presents : o.presents = true) :
    m.AlikeButOutputs (m.perform o).2 := by
  cases o with
  | takeFrame => exact ⟨rfl, rfl, rfl, rfl, rfl⟩
  | clearRedraw => exact ⟨rfl, rfl, rfl, rfl, rfl⟩
  | _ => exact nomatch presents

/-- With the delay timer at zero the timers only count for the tone. -/
theorem tick (m : Machine) (stopped : m.state.delay = 0) : m.AlikeButOutputs m.tick := by
  refine ⟨?_, rfl, rfl, rfl, rfl⟩
  rw [Machine.tick, State.hushed, State.hushed, stopped]
  rfl

end AlikeButOutputs

/-- What a list of operations answers, but to those that a screen is served with. -/
def results (os : List Operation) (m : Machine) : List (Operation × Answer) :=
  (os.zip (m.answers os)).filter fun (o, _) => !o.presents

theorem results_cons (o : Operation) (os : List Operation) (m : Machine) :
    m.results (o :: os) =
      if o.presents then (m.perform o).2.results os
      else (o, (m.perform o).1) :: (m.perform o).2.results os := by
  rw [results, answers, List.zip_cons_cons]
  cases presents : o.presents <;> simp [presents, results]

/-- The operations that a screen is served with can be left out. -/
theorem AlikeButOutputs.unpresented (h : m.AlikeButOutputs m') (os : List Operation) :
    m'.results (os.filter (!·.presents)) = m.results os ∧
      (m.after os).AlikeButOutputs (m'.after (os.filter (!·.presents))) := by
  induction os generalizing m m' with
  | nil => exact ⟨rfl, h⟩
  | cons o os ih =>
    cases presents : o.presents
    · obtain ⟨answered, next⟩ := h.perform o
      obtain ⟨rest, last⟩ := ih next
      rw [List.filter_cons_of_pos (by simp [presents]), results_cons, results_cons, presents, rest,
        answered presents]
      exact ⟨rfl, last⟩
    · obtain ⟨rest, last⟩ := ih ((AlikeButOutputs.present m presents).symm.trans h)
      rw [List.filter_cons_of_neg (by simp [presents]), results_cons, presents, rest]
      exact ⟨rfl, last⟩

/-- Two machines that differ in their sound timers and marks to draw only answer alike, draw the same
chances and go on differing in these only, whatever is done to both, and even if a screen is served
by each of them at other times, or never. -/
theorem outputs_never_matter (alike : m.AlikeButOutputs m')
    (same : os'.filter (!·.presents) = os.filter (!·.presents)) :
    m'.results os' = m.results os ∧ (m.after os).AlikeButOutputs (m'.after os') := by
  obtain ⟨results, last⟩ := alike.unpresented os
  obtain ⟨results', last'⟩ := (AlikeButOutputs.refl m').unpresented os'
  rw [same] at results' last'
  exact ⟨results'.symm.trans results, last.trans last'.symm⟩

/-- A program that has sounded the tone and drawn a digit, and is about to throw dice. -/
def chimes : Machine :=
  (new Dialect.common (.ofList [0x1234, 0x77])).after
    [.load [0x60, 0x07, 0xF0, 0x18, 0xD0, 0x05, 0xC1, 0xFF, 0xC2, 0xFF], .step, .step, .step]

/-- It throws the same whether or not the tone has faded and the digit been shown before, and
whatever is shown between the throws. -/
theorem outputs_never_matter_chimes :
    let faded := chimes.after [.tick, .takeFrame]
    let os := [Operation.takeFrame, .step, .rewind, .takeFrame, .step, .step]
    let os' := [Operation.step, .clearRedraw, .rewind, .step, .takeFrame, .step]
    chimes.AlikeButOutputs faded ∧ os'.filter (!·.presents) = os.filter (!·.presents) ∧
      chimes.state.sound = 7 ∧ faded.state.sound = 6 ∧
      (chimes.perform .takeFrame).1 ≠ (faded.perform .takeFrame).1 ∧
      (chimes.after os).saved ≠ (faded.after os').saved ∧
      faded.results os' = chimes.results os ∧
      (chimes.after os).AlikeButOutputs (faded.after os') := by
  intro faded os os'
  have ⟨stopped, loud, soft, shown, differ⟩ :
      chimes.state.delay = 0 ∧ chimes.state.sound = 7 ∧ faded.state.sound = 6 ∧
      (chimes.perform .takeFrame).1 ≠ (faded.perform .takeFrame).1 ∧
      (chimes.after os).saved.map State.sound ≠ (faded.after os').saved.map State.sound := by
    decide +kernel
  have alike : chimes.AlikeButOutputs faded :=
    (AlikeButOutputs.tick chimes stopped).trans (AlikeButOutputs.present chimes.tick rfl)
  have same : os'.filter (!·.presents) = os.filter (!·.presents) := rfl
  obtain ⟨results, last⟩ := outputs_never_matter alike same
  exact ⟨alike, same, loud, soft, shown, fun same => differ (congrArg (List.map State.sound) same),
    results, last⟩

end Machine
end Chip8
