import Chip8.Proofs.Instruction.Footprint
import Chip8.Proofs.Machine.Bursts

/-!
# The mark to draw

Instructions and rewinds mark the picture wherever they change it, and leave a mark that is there;
so does a burst of them. Taking the picture clears the mark. A reset clears it as well, though it
makes the picture dark: what it changes is marked by nothing. So the mark is on just where the last
thing that bears on it was an instruction that draws or a rewind, and the marks of the saved states
never come back.
-/

namespace Chip8

/-- A state that is marked, or has the picture and the mark of the one before it. -/
def State.Redrawn (s t : State) : Prop :=
  t.redraw = true ∨ (t.redraw = s.redraw ∧ t.frame = s.frame)

namespace State.Redrawn

variable {s t u : State}

theorem refl (s : State) : s.Redrawn s := .inr ⟨rfl, rfl⟩

theorem trans (h : s.Redrawn t) (h' : t.Redrawn u) : s.Redrawn u := by
  rcases h' with marked | ⟨redraw, frame⟩
  · exact .inl marked
  · unfold State.Redrawn
    rw [redraw, frame]
    exact h

theorem frame_eq (h : s.Redrawn t) (unmarked : t.redraw = false) : t.frame = s.frame := by
  rcases h with marked | ⟨-, frame⟩
  · exact absurd (marked.symm.trans unmarked) (by decide)
  · exact frame

end State.Redrawn

theorem Instruction.redrawn_apply (d : Dialect) (w : WordStream) (i : Instruction) (s : State) :
    s.Redrawn (i.apply d w s) := by
  cases i with
  | clear => exact .inl rfl
  | draw x y height => exact .inl rfl
  | loadRegisters x =>
    rw [apply, State.passIndex, State.loadFirst]
    exact .inr ⟨rfl, rfl⟩
  | _ => exact .inr ⟨rfl, rfl⟩

namespace Machine

theorem redrawn_step (m : Machine) : m.state.Redrawn (m.perform .step).2.state := by
  rcases perform_step_cases m with ⟨i, -, stepped⟩ | ⟨o, -, stepped⟩
  · rw [stepped]
    exact i.redrawn_apply m.dialect m.random m.state
  · rw [stepped]
    exact .refl m.state

theorem redrawn_rewind (m : Machine) : m.state.Redrawn (m.perform .rewind).2.state := by
  rcases rewind_cases m with ⟨-, same⟩ | ⟨s, back, -, went, -, shape⟩
  · rw [same]
    exact .refl m.state
  · rw [went, shape]
    exact .inl rfl

theorem redrawn_burst (n : Nat) (m : Machine) : m.state.Redrawn (m.burst n).machine.state := by
  rw [machine_burst]
  have keeps (m' : Machine) (h : m.state.Redrawn m'.state) := h.trans (redrawn_step m')
  exact after_replicate_induction keeps (.refl m.state) n

theorem redrawn_rewindUpTo (n : Nat) (m : Machine) :
    m.state.Redrawn (m.rewindUpTo n).2.state := by
  rw [rewindUpTo_eq]
  have keeps (m' : Machine) (h : m.state.Redrawn m'.state) := h.trans (redrawn_rewind m')
  exact after_replicate_induction keeps (.refl m.state) _

theorem redraw_press (k : UInt8) (m : Machine) :
    (m.press k).state.redraw = m.state.redraw ∧ (m.press k).state.frame = m.state.frame := by
  obtain ⟨keypad, v, awaiting, shape⟩ := press_shape k m
  rw [shape]
  exact ⟨rfl, rfl⟩

theorem redraw_release (k : UInt8) (m : Machine) :
    (m.release k).state.redraw = m.state.redraw ∧ (m.release k).state.frame = m.state.frame := by
  obtain ⟨keypad, shape⟩ := release_shape k m
  rw [shape]
  exact ⟨rfl, rfl⟩

end Machine

/-- Where an operation that was answered so leaves the mark, if it bears on it. Drawing marks the
picture even if no pixel changes. -/
def Operation.marks? : Operation → Answer → Option Bool
  | .step, .stepped (.executed .clear) => some true
  | .step, .stepped (.executed (.draw _ _ _)) => some true
  | .rewind, .rewound true => some true
  | .takeFrame, _ => some false
  | .clearRedraw, _ => some false
  | .reset, _ => some false
  | _, _ => none

/-- Where the latest operation that bears on the mark has left it. -/
def lastMark? (os : List Operation) (as : List Answer) : Option Bool :=
  (os.zip as).reverse.findSome? fun (o, a) => o.marks? a

namespace Machine

theorem marks?_step_ran (i : Instruction) :
    Operation.step.marks? (.stepped (Outcome.ran i)) = match i with
      | .clear | .draw _ _ _ => some true
      | _ => none := by
  cases i <;> rfl

theorem marks?_step_of_not_moved {o : Outcome} (still : o.moved = false) :
    Operation.step.marks? (.stepped o) = none := by
  cases o with
  | executed i => exact nomatch still
  | unsupported op => rfl
  | awaiting x => rfl
  | faulted f => rfl

theorem redraw_load {o : Operation}
    (loads : (∃ program, o = .load program) ∨ ∃ file, o = .loadRom file) (m : Machine) :
    (m.perform o).2.state.redraw = m.state.redraw := by
  rcases perform_load_cases m loads with same | ⟨program, -, shape⟩
  · rw [same]
  · rw [shape]
    rfl

theorem redraw_perform (m : Machine) (o : Operation) :
    (m.perform o).2.state.redraw = (o.marks? (m.perform o).1).getD m.state.redraw := by
  cases o with
  | step =>
    rcases perform_step_cases m with ⟨i, -, stepped⟩ | ⟨o, still, stepped⟩
    · rw [stepped, marks?_step_ran]
      change (i.apply m.dialect m.random m.state).redraw = _
      rw [Instruction.redraw_apply]
      cases i <;> rfl
    · rw [stepped, marks?_step_of_not_moved still]
      rfl
  | rewind =>
    rcases rewind_cases m with ⟨-, same⟩ | ⟨s, back, -, went, -, shape⟩
    · rw [same]
      rfl
    · rw [went, shape]
      rfl
  | press k => exact (redraw_press k m).1
  | release k => exact (redraw_release k m).1
  | load program => exact redraw_load (.inl ⟨program, rfl⟩) m
  | loadRom file => exact redraw_load (.inr ⟨file, rfl⟩) m
  | tick => rfl
  | reset => rfl
  | takeFrame => rfl
  | clearRedraw => rfl
  | setDialect d => rfl
  | setRandom w => rfl

/-- Whatever was done to a new machine, its picture is marked just where the latest operation that
bears on the mark has set it; just then the picture can be taken, and it is the one on the screen.
The other operations leave the mark alone. -/
theorem redraw_iff_last_marks (d : Dialect) (w : WordStream) (os : List Operation) :
    let m := (new d w).after os
    let marked := lastMark? os ((new d w).answers os) = some true
    (m.state.redraw = true ↔ marked) ∧
      (∀ f, (m.perform .takeFrame).1 = .frame (some f) ↔ marked ∧ f = m.state.frame) ∧
      ∀ o, o.marks? (m.perform o).1 = none → (m.perform o).2.state.redraw = m.state.redraw := by
  intro m marked
  have latest : m.state.redraw = (lastMark? os ((new d w).answers os)).getD false :=
    after_latest (·.state.redraw) redraw_perform os (new d w)
  have on : m.state.redraw = true ↔ marked := by
    rw [latest]
    cases h : lastMark? os ((new d w).answers os) <;> simp [marked, h]
  refine ⟨on, fun f => ?_, fun o idle => ?_⟩
  · change Answer.frame m.pendingFrame? = _ ↔ _
    rw [← on, pendingFrame?]
    split
    · next on => simp only [Answer.frame.injEq, Option.some.injEq, on, true_and, eq_comm]
    · next off => simp [off]
  · rw [redraw_perform, idle]
    rfl

end Machine
end Chip8
