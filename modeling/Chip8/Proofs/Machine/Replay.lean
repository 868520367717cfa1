import Chip8.Proofs.Instruction.Footprint
import Chip8.Proofs.Machine.Runs

/-!
# Rewinding and stepping again

As many rewinds as steps lead back to where the steps began, as long as the history holds all of
them. The machine there differs from the one before by the mark to draw, and by the states that were
forgotten; no step looks at either, so unless chance was asked the same steps follow.
-/

namespace Chip8

/-- An instruction was run, and it did not ask chance. -/
def Outcome.Settled (o : Outcome) : Prop :=
  o.moved = true ∧ ∀ x mask, o ≠ .executed (.random x mask)

namespace Machine

variable {m m' : Machine} {n : Nat}

/-- A machine from which the same instructions run as from `m`, with its picture marked. -/
structure Rerun (m m' : Machine) : Prop where
  state : m'.state = m.state.marked
  dialect : m'.dialect = m.dialect
  random : m'.random = m.random

theorem Rerun.upcoming (h : m.Rerun m') : m'.upcoming = m.upcoming := by
  rw [Machine.upcoming, h.state]
  rfl

theorem Rerun.step (h : m.Rerun m') : m'.step.1 = m.step.1 ∧ m.step.2.Rerun m'.step.2 := by
  rcases step_cases_of_upcoming_eq h.upcoming with
    ⟨i, -, stepped, stepped'⟩ | ⟨o, -, stepped, stepped'⟩
  · rw [stepped, stepped']
    refine ⟨rfl, ?_, h.dialect, ?_⟩
    · simp only [run, h.state, h.dialect, h.random, Instruction.apply_marked]
    · simp only [run, h.random]
  · rw [stepped, stepped']
    exact ⟨rfl, h⟩

theorem Rerun.steps (h : m.Rerun m') (n : Nat) :
    m'.answers (List.replicate n .step) = m.answers (List.replicate n .step) ∧
      (m.after (List.replicate n .step)).Rerun (m'.after (List.replicate n .step)) := by
  refine lockstep Rerun (fun before o inside h => ?_) h
  obtain rfl : o = .step := List.eq_of_mem_replicate (inside.subset (by simp))
  obtain ⟨same, next⟩ := h.step
  exact ⟨congrArg Answer.stepped same, next⟩

/-- Where `n` rewinds lead behind `n` steps from `m`. -/
structure WentBack (m back : Machine) (n : Nat) : Prop where
  saved : back.saved = m.saved.take (1024 - n)
  keypad : back.state.keypad = m.state.keypad
  dialect : back.dialect = m.dialect
  random : back.random = m.random
  state : 0 < n → back.state = m.state.marked

theorem step_of_settled (h : m.step.1.Settled) :
    ∃ i : Instruction, i.draws = 0 ∧ m.step.2 = m.run i := by
  obtain ⟨moved, quiet⟩ := h
  rcases step_cases m with ⟨i, -, stepped⟩ | ⟨o, -, still, stepped⟩
  · rw [stepped] at quiet ⊢
    refine ⟨i, ?_, rfl⟩
    cases i with
    | random x mask => exact absurd rfl (quiet x mask)
    | _ => rfl
  · rw [stepped] at moved
    exact absurd (moved.symm.trans still) (by decide)

/-- One rewind more, over the first of the steps. -/
theorem WentBack.rewind {back : Machine} {i : Instruction} (quiet : i.draws = 0)
    (h : (m.run i).WentBack back n) (le : n + 1 ≤ 1024) :
    (back.perform .rewind).1 = .rewound true ∧
      m.WentBack (back.perform .rewind).2 (n + 1) := by
  have top : back.saved = m.state :: m.saved.take (1024 - (n + 1)) := by
    have limit : savedLimit = 1024 := rfl
    -- the state before the first step is forgotten only by the 1024th push after it
    have room : 1024 - n = 1024 - (n + 1) + 1 := by omega
    rw [h.saved, saved_run, List.take_take, limit, Nat.min_eq_left (Nat.sub_le 1024 n), room,
      List.take_succ_cons]
  have keypad : back.state.keypad = m.state.keypad :=
    h.keypad.trans (i.keypad_apply m.dialect m.random m.state)
  rcases rewind_cases back with ⟨none, -⟩ | ⟨s, last, -, went, saved, shape⟩
  · exact nomatch top.symm.trans none
  · obtain ⟨rfl, older⟩ := List.cons.inj (saved.symm.trans top)
    rw [went]
    refine ⟨rfl, older, ?_, ?_, ?_, fun _ => ?_⟩
    · rw [shape, ← keypad]
    · rw [shape]
      exact h.dialect
    · rw [shape]
      refine h.random.trans ?_
      rw [run, quiet]
      rfl
    · rw [shape, keypad]
      rfl

theorem rewinds_of_steps (le : n ≤ 1024)
    (settled : ∀ a ∈ m.answers (List.replicate n .step), ∃ o, a = .stepped o ∧ o.Settled) :
    (m.after (List.replicate n .step)).answers (List.replicate n .rewind) =
        List.replicate n (.rewound true) ∧
      m.WentBack ((m.after (List.replicate n .step)).after (List.replicate n .rewind)) n := by
  -- the first step is taken off together with the last rewind, which undoes it
  induction n generalizing m with
  | zero =>
    have short : m.saved.take 1024 = m.saved := List.take_of_length_le (length_saved_le m)
    exact ⟨rfl, short.symm, rfl, rfl, rfl, nofun⟩
  | succ n ih =>
    obtain ⟨o, answered, first⟩ := settled _ List.mem_cons_self
    cases answered
    obtain ⟨i, quiet, stepped⟩ := step_of_settled first
    have rest : ∀ a ∈ (m.run i).answers (List.replicate n .step),
        ∃ o, a = .stepped o ∧ o.Settled := by
      rw [← stepped]
      exact fun a later => settled a (List.mem_cons_of_mem _ later)
    obtain ⟨all, back⟩ := ih (Nat.le_of_succ_le le) rest
    obtain ⟨one, went⟩ := back.rewind quiet le
    have there : m.after (List.replicate (n + 1) .step) =
        (m.run i).after (List.replicate n .step) := by
      rw [← stepped]
      rfl
    rw [there, List.replicate_succ', List.replicate_succ', answers_append, after_append, all]
    exact ⟨congrArg (_ ++ [·]) one, went⟩

/-- The steps that were rewound run again, to the same answers and the same state, but that its
picture is marked. -/
theorem replay_after_rewind (pos : 1 ≤ n) (le : n ≤ 1024)
    (settled : ∀ a ∈ m.answers (List.replicate n .step), ∃ o, a = .stepped o ∧ o.Settled) :
    let steps := List.replicate n Operation.step
    let rewinds := List.replicate n Operation.rewind
    let there := m.after steps
    let back := there.after rewinds
    there.answers rewinds = List.replicate n (.rewound true) ∧
      back.answers steps = m.answers steps ∧
      (back.after steps).state = { there.state with redraw := true } := by
  intro steps rewinds there back
  obtain ⟨rewound, went⟩ := rewinds_of_steps le settled
  obtain ⟨same, last⟩ := Rerun.steps ⟨went.state pos, went.dialect, went.random⟩ n
  exact ⟨rewound, same, last.state⟩

/-- A program whose subroutine writes the instruction to return to, draws it, and returns. -/
def rewritesItself : Machine :=
  (new Dialect.common (.ofList [])).after
    [.load [0x22, 0x04, 0x00, 0x00, 0xA2, 0x02, 0x60, 0xF1, 0x61, 0x0A, 0xF1, 0x55, 0xD0, 0x15,
      0x00, 0xEE]]

/-- The words that it runs; the last of them it has written itself. -/
def wordsRun : List Opcode := [0x2204, 0xA202, 0x60F1, 0x610A, 0xF155, 0xD015, 0x00EE, 0xF10A]

theorem replay_after_rewind_rewritesItself :
    let steps := List.replicate 8 Operation.step
    let rewinds := List.replicate 8 Operation.rewind
    let there := rewritesItself.after steps
    rewritesItself.answers steps = wordsRun.map (.stepped <| .executed <| Instruction.decode ·) ∧
      there.answers rewinds = List.replicate 8 (.rewound true) ∧
      (there.after rewinds).answers steps = rewritesItself.answers steps ∧
      ((there.after rewinds).after steps).state = { there.state with redraw := true } := by
  have run : rewritesItself.answers (List.replicate 8 .step) =
      wordsRun.map (.stepped <| .executed <| Instruction.decode ·) := by
    decide +kernel
  have quiet : wordsRun.all (fun op => (Instruction.decode op).draws == 0) = true := by decide
  have settled : ∀ a ∈ rewritesItself.answers (List.replicate 8 .step),
      ∃ o, a = .stepped o ∧ o.Settled := by
    rw [run]
    intro a answered
    obtain ⟨op, inside, rfl⟩ := List.mem_map.mp answered
    refine ⟨_, rfl, rfl, fun x mask same => ?_⟩
    have random : Instruction.decode op = .random x mask := Outcome.executed.inj same
    simpa [random, Instruction.draws] using List.all_eq_true.mp quiet op inside
  have replayed := replay_after_rewind (by decide) (by decide) settled
  exact ⟨run, replayed⟩

end Machine
end Chip8
