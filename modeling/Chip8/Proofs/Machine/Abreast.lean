import Chip8.Proofs.Machine.Runs

/-!
# Machines abreast

Two machines in one state, with one program and the same chance ahead of them, whose dialects differ,
or whose saved states do in something that a rewind does not bring back. Only steps look at the
dialect and only rewinds at the history. So the machines stay abreast and answer alike whatever is
done to both, as long as each instruction they run does the same in both dialects.
-/

namespace Chip8.Machine

/-- Two machines that are alike but for the dialect, and for what `blur` takes away from the saved
states. -/
structure Abreast (blur : State → State) (m m' : Machine) : Prop where
  state : m'.state = m.state
  saved : m'.saved.map blur = m.saved.map blur
  program : m'.program = m.program
  random : m'.random = m.random

/-- What `blur` takes away from a saved state is lost in a rewind anyway. -/
def RewindIgnores (blur : State → State) : Prop :=
  ∀ s keypad, ({ blur s with keypad, redraw := true } : State) = { s with keypad, redraw := true }

variable {blur : State → State} {m m' : Machine}

theorem press_with (k : UInt8) (d : Dialect) (h : History State savedLimit) (m : Machine) :
    ({ m with dialect := d, history := h } : Machine).press k =
      { m.press k with dialect := d, history := h } := by
  unfold press
  split
  · rfl
  · dsimp only
    split
    · split <;> rfl
    · rfl

theorem release_with (k : UInt8) (d : Dialect) (h : History State savedLimit) (m : Machine) :
    ({ m with dialect := d, history := h } : Machine).release k =
      { m.release k with dialect := d, history := h } := by
  unfold release
  split <;> rfl

theorem load_with (program : List UInt8) (d : Dialect) (h : History State savedLimit)
    (m : Machine) :
    ({ m with dialect := d, history := h } : Machine).load program =
      (m.load program).map ({ · with dialect := d, history := h }) := by
  unfold load
  split <;> rfl

/-- An operation that needs neither the dialect nor the history leaves them as they are, and does
the same whatever they are. -/
theorem perform_with {o : Operation} (step : o ≠ .step) (rewind : o ≠ .rewind) (reset : o ≠ .reset)
    (set : ∀ d, o ≠ .setDialect d) (d : Dialect) (h : History State savedLimit) (m : Machine) :
    ({ m with dialect := d, history := h } : Machine).perform o =
      ((m.perform o).1, { (m.perform o).2 with dialect := d, history := h }) := by
  cases o with
  | step => contradiction
  | rewind => contradiction
  | reset => contradiction
  | setDialect d => exact absurd rfl (set d)
  | press k => exact congrArg (Answer.done, ·) (press_with k d h m)
  | release k => exact congrArg (Answer.done, ·) (release_with k d h m)
  | load program =>
    simp only [perform, load_with]
    cases m.load program <;> rfl
  | loadRom file =>
    simp only [perform, loadRom]
    cases file.readUpTo (romLimit + 1) with
    | error e => rfl
    | ok program =>
      simp only [load_with]
      cases m.load program <;> rfl
  | tick => rfl
  | takeFrame => rfl
  | clearRedraw => rfl
  | setRandom w => rfl

theorem dialect_perform (m : Machine) {o : Operation} (kept : ∀ d, o ≠ .setDialect d) :
    (m.perform o).2.dialect = m.dialect := by
  by_cases step : o = .step
  · subst step
    rcases perform_step_cases m with ⟨i, -, stepped⟩ | ⟨o, -, stepped⟩
    · rw [stepped]
      rfl
    · rw [stepped]
  by_cases rewind : o = .rewind
  · subst rewind
    rcases rewind_cases m with ⟨-, same⟩ | ⟨s, back, -, went, -, shape⟩
    · rw [same]
    · rw [went, shape]
  by_cases reset : o = .reset
  · subst reset
    rfl
  have same := perform_with step rewind reset kept m.dialect m.history m
  exact congrArg (·.2.dialect) same

theorem Abreast.perform_other (h : m.Abreast blur m') {o : Operation} (step : o ≠ .step)
    (rewind : o ≠ .rewind) :
    (m'.perform o).1 = (m.perform o).1 ∧ (m.perform o).2.Abreast blur (m'.perform o).2 := by
  have shape : m' = { m with dialect := m'.dialect, history := m'.history } := by
    simp only [← h.state, ← h.program, ← h.random]
  by_cases reset : o = .reset
  · subst reset
    exact ⟨rfl, congrArg (State.powerOn.install ·) h.program, rfl, h.program, h.random⟩
  by_cases set : ∃ d, o = .setDialect d
  · obtain ⟨d, rfl⟩ := set
    exact ⟨rfl, h.state, h.saved, h.program, h.random⟩
  have same := perform_with step rewind reset (fun d is => set ⟨d, is⟩) m'.dialect m'.history m
  rw [← shape] at same
  rw [same]
  refine ⟨rfl, rfl, ?_, rfl, rfl⟩
  rw [saved_perform_other step rewind reset]
  exact h.saved

theorem Abreast.rewind (h : m.Abreast blur m') (ignores : RewindIgnores blur) :
    (m'.perform .rewind).1 = (m.perform .rewind).1 ∧
      (m.perform .rewind).2.Abreast blur (m'.perform .rewind).2 := by
  rcases rewind_cases_of_saved_eq h.saved with
    ⟨same, same'⟩ | ⟨s, s', back, back', went, went', alike, older, shape, shape'⟩
  · rw [same, same']
    exact ⟨rfl, h⟩
  · rw [went, went']
    refine ⟨rfl, ?_, older, ?_, ?_⟩
    · rw [shape, shape', h.state, ← ignores s, ← ignores s', alike]
    · rw [shape, shape', h.program]
    · rw [shape, shape', h.random]

theorem Abreast.upcoming (h : m.Abreast blur m') : m'.upcoming = m.upcoming := by
  rw [Machine.upcoming, h.state]
  rfl

theorem Abreast.step (h : m.Abreast blur m')
    (agree : ∀ i, m.upcoming = .ok i →
      i.apply m'.dialect m.random m.state = i.apply m.dialect m.random m.state) :
    m'.step.1 = m.step.1 ∧ m.step.2.Abreast blur m'.step.2 := by
  rcases step_cases_of_upcoming_eq h.upcoming with
    ⟨i, ready, stepped, stepped'⟩ | ⟨o, -, stepped, stepped'⟩
  · rw [stepped, stepped']
    refine ⟨rfl, ?_, ?_, h.program, ?_⟩
    · simp only [run, h.state, h.random, agree i ready]
    · rw [saved_run, saved_run, List.map_take, List.map_take, List.map_cons, List.map_cons,
        h.state, h.saved]
    · simp only [run, h.random]
  · rw [stepped, stepped']
    exact ⟨rfl, h⟩

/-- Machines abreast answer alike and stay abreast, if what they run does the same in both
dialects. -/
theorem Abreast.perform (h : m.Abreast blur m') (ignores : RewindIgnores blur) (o : Operation)
    (agree : o = .step → ∀ i, m.upcoming = .ok i →
      i.apply m'.dialect m.random m.state = i.apply m.dialect m.random m.state) :
    (m'.perform o).1 = (m.perform o).1 ∧ (m.perform o).2.Abreast blur (m'.perform o).2 := by
  by_cases step : o = .step
  · subst step
    obtain ⟨same, next⟩ := h.step (agree rfl)
    exact ⟨congrArg Answer.stepped same, next⟩
  by_cases rewind : o = .rewind
  · subst rewind
    exact h.rewind ignores
  exact h.perform_other step rewind

end Chip8.Machine
