import Chip8.Proofs.Machine.Runs

/-!
# Rewinding as an undo stack

A stack without bound takes the state before every step that runs an instruction, and loses its top
at every rewind and everything at a reset. A count beside it says how many of its entries are still
kept. The saved states of a machine are just these, so that a rewind goes back to the top of the
stack wherever the count is not zero.
-/

namespace Chip8

/-- Every state that could be undone if none were forgotten, the newest first, and how many of them
are kept. -/
structure Undo where
  stack : List State
  count : Nat

namespace Undo

def empty : Undo := ⟨[], 0⟩

/-- The stack behind an operation that was done in a state and answered so. -/
def follow (u : Undo) (s : State) : Operation → Answer → Undo
  | .step, .stepped (.executed _) => ⟨s :: u.stack, min (u.count + 1) 1024⟩
  | .step, .stepped (.unsupported _) => ⟨s :: u.stack, min (u.count + 1) 1024⟩
  | .rewind, _ => ⟨u.stack.tail, u.count - 1⟩
  | .reset, _ => empty
  | _, _ => u

theorem follow_ran (u : Undo) (s : State) (i : Instruction) :
    u.follow s .step (.stepped (Outcome.ran i)) = ⟨s :: u.stack, min (u.count + 1) 1024⟩ := by
  cases i <;> rfl

theorem follow_not_moved (u : Undo) (s : State) {o : Outcome} (h : o.moved = false) :
    u.follow s .step (.stepped o) = u := by
  cases o with
  | executed i => exact nomatch h
  | unsupported op => exact nomatch h
  | awaiting x => rfl
  | faulted f => rfl

theorem follow_other (u : Undo) (s : State) {o : Operation} (a : Answer) (step : o ≠ .step)
    (rewind : o ≠ .rewind) (reset : o ≠ .reset) : u.follow s o a = u := by
  cases o <;> first | contradiction | rfl

end Undo

namespace Machine

/-- The stack behind a list of operations. -/
def undoAfter : List Operation → Machine → Undo → Undo
  | [], _, u => u
  | o :: rest, m, u => undoAfter rest (m.perform o).2 (u.follow m.state o (m.perform o).1)

/-- The saved states are the newest entries of the stack, as many as are counted. -/
structure Tracks (m : Machine) (u : Undo) : Prop where
  saved_eq : m.saved = u.stack.take u.count
  count_le_length : u.count ≤ u.stack.length
  count_le_limit : u.count ≤ 1024

variable {m : Machine} {u : Undo}

theorem tracks_reset (m : Machine) : m.reset.Tracks Undo.empty :=
  ⟨saved_reset m, Nat.le_refl 0, Nat.zero_le 1024⟩

theorem tracks_new (d : Dialect) (w : WordStream) : (new d w).Tracks Undo.empty :=
  ⟨rfl, Nat.le_refl 0, Nat.zero_le 1024⟩

theorem Tracks.count_eq_length (h : m.Tracks u) : u.count = m.saved.length := by
  rw [h.saved_eq, List.length_take, Nat.min_eq_left h.count_le_length]

private theorem tracks_run (h : m.Tracks u) (i : Instruction) :
    (m.run i).Tracks ⟨m.state :: u.stack, min (u.count + 1) 1024⟩ := by
  have le := h.count_le_length
  refine ⟨?_, ?_, Nat.min_le_right ..⟩
  · have limit : savedLimit = 1023 + 1 := rfl
    -- beyond the limit both sides forget the entry at the far end
    have cut : min (u.count + 1) 1024 = min 1023 u.count + 1 := by omega
    rw [saved_run, h.saved_eq, cut, limit, List.take_succ_cons, List.take_succ_cons, List.take_take]
  · exact Nat.le_trans (Nat.min_le_left ..) (Nat.succ_le_succ le)

private theorem tracks_step (h : m.Tracks u) :
    (m.perform .step).2.Tracks (u.follow m.state .step (m.perform .step).1) := by
  rcases perform_step_cases m with ⟨i, -, stepped⟩ | ⟨o, still, stepped⟩
  · rw [stepped, Undo.follow_ran]
    exact tracks_run h i
  · rw [stepped, Undo.follow_not_moved u m.state still]
    exact h

private theorem tracks_rewind (h : m.Tracks u) :
    (m.perform .rewind).2.Tracks ⟨u.stack.tail, u.count - 1⟩ := by
  have count := h.count_eq_length
  have inside := h.count_le_length
  have limit := h.count_le_limit
  refine ⟨?_, ?_, by dsimp only; omega⟩
  · have tail : m.saved.tail = u.stack.tail.take (u.count - 1) := by
      rw [h.saved_eq]
      cases u.stack <;> cases u.count <;> simp
    rcases rewind_cases m with ⟨none, same⟩ | ⟨s, back, -, went, saved, -⟩
    · rw [same, ← tail, none]
      rfl
    · rw [went, ← tail, saved]
      rfl
  · rw [List.length_tail]
    dsimp only
    omega

theorem tracks_perform (h : m.Tracks u) (o : Operation) :
    (m.perform o).2.Tracks (u.follow m.state o (m.perform o).1) := by
  by_cases step : o = .step
  · subst step
    exact tracks_step h
  by_cases rewind : o = .rewind
  · subst rewind
    exact tracks_rewind h
  by_cases reset : o = .reset
  · subst reset
    exact tracks_reset m
  rw [Undo.follow_other u m.state _ step rewind reset]
  exact ⟨(saved_perform_other step rewind reset).trans h.saved_eq, h.count_le_length,
    h.count_le_limit⟩

theorem tracks_after (h : m.Tracks u) (os : List Operation) :
    (m.after os).Tracks (m.undoAfter os u) := by
  induction os generalizing m u with
  | nil => exact h
  | cons o os ih => exact ih (tracks_perform h o)

/-- What a rewind answers and where it leads, in terms of the stack. -/
theorem Tracks.rewind (h : m.Tracks u) :
    (m.perform .rewind).1 = .rewound (decide (0 < u.count)) ∧
      (0 < u.count → ∃ s, u.stack.head? = some s ∧
        (m.perform .rewind).2.state = { s with keypad := m.state.keypad, redraw := true }) := by
  have count := h.count_eq_length
  rcases rewind_cases m with ⟨none, same⟩ | ⟨s, back, -, went, saved, shape⟩
  · have zero : u.count = 0 := by rw [count, none, List.length_nil]
    rw [same, zero]
    exact ⟨rfl, nofun⟩
  · have pos : 0 < u.count := by
      rw [count, saved]
      exact Nat.succ_pos _
    have top : u.stack.head? = some s := by
      have head := congrArg List.head? (h.saved_eq.symm.trans saved)
      rwa [List.head?_take, if_neg (Nat.ne_of_gt pos)] at head
    rw [went, decide_eq_true pos]
    refine ⟨rfl, fun _ => ⟨s, top, ?_⟩⟩
    rw [shape]

/-- Whatever was done to a new machine, its saved states are the counted top of the undo stack, and
a rewind takes the top of that stack, but for the keys and the mark to draw. -/
theorem rewind_refines_undo (d : Dialect) (w : WordStream) (os : List Operation) :
    let m := (new d w).after os
    let u := (new d w).undoAfter os Undo.empty
    m.saved = u.stack.take u.count ∧ m.saved.length = u.count ∧
      (m.perform .rewind).1 = .rewound (decide (0 < u.count)) ∧
      (0 < u.count → ∃ s, u.stack.head? = some s ∧
        (m.perform .rewind).2.state = { s with keypad := m.state.keypad, redraw := true }) := by
  intro m u
  have tracks : m.Tracks u := tracks_after (tracks_new d w) os
  exact ⟨tracks.saved_eq, tracks.count_eq_length.symm, tracks.rewind⟩

end Machine
end Chip8
