import Chip8.Proofs.Machine.Range

/-!
# Calls and returns

From a call on the stack of its caller is left alone, with the place of the call on top of it, until
a return brings the stack down to the caller's depth. That return goes on behind the call, whatever
was called in between and whatever became of the program.
-/

namespace Chip8

/-- A state inside a call that was made in the state `caller`. -/
structure State.InsideCall (caller s : State) : Prop where
  deeper : caller.sp < s.sp
  place : s.stack[caller.sp]? = some caller.pc
  kept : ∀ k, k < caller.sp → s.stack[k]? = caller.stack[k]?

/-- A state behind the return from a call that was made in the state `caller`. -/
structure State.BehindCall (caller s : State) : Prop where
  level : s.sp = caller.sp
  pc : s.pc = caller.pc + 2
  kept : ∀ k, k < caller.sp → s.stack[k]? = caller.stack[k]?

namespace Instruction

variable {caller s : State} (d : Dialect) (w : WordStream)

theorem insideCall_call (target : Address) (sound : (call target).fault? s = none) :
    s.InsideCall ((call target).apply d w s) := by
  have room : s.sp < 16 := sp_of_fault?_call_eq_none sound
  refine ⟨?_, ?_, fun k below => ?_⟩
  · rw [sp_apply]
    exact Nat.lt_succ_self s.sp
  · rw [stack_apply]
    simp [room]
  · rw [stack_apply]
    exact Vector.getElem?_setIfInBounds_ne (Nat.ne_of_gt below)

/-- Inside a call an instruction stays there, or it is the return from it. -/
theorem insideCall_apply (h : caller.InsideCall s) (i : Instruction) :
    caller.InsideCall (i.apply d w s) ∨ i = ret ∧ caller.BehindCall (i.apply d w s) := by
  have deeper := h.deeper
  cases i with
  | ret =>
    by_cases last : s.sp = caller.sp + 1
    · have top : s.sp - 1 = caller.sp := by omega
      refine .inr ⟨rfl, top, ?_, h.kept⟩
      simp only [apply, top, h.place, Option.getD_some]
    · refine .inl ⟨?_, h.place, h.kept⟩
      rw [sp_apply]
      dsimp only
      omega
  | call target =>
    -- a call further in writes at its own depth, above both the caller's cells and the place
    have above (k : Nat) (le : k ≤ caller.sp) :
        ((call target).apply d w s).stack[k]? = s.stack[k]? := by
      rw [stack_apply]
      exact Vector.getElem?_setIfInBounds_ne (by omega)
    refine .inl ⟨?_, ?_, fun k below => ?_⟩
    · rw [sp_apply]
      exact Nat.lt_succ_of_lt deeper
    · rw [above caller.sp (Nat.le_refl _), h.place]
    · rw [above k (Nat.le_of_lt below), h.kept k below]
  | _ =>
    left
    refine ⟨?_, ?_, fun k below => ?_⟩
    · rw [sp_apply]
      exact deeper
    · rw [stack_apply]
      exact h.place
    · rw [stack_apply]
      exact h.kept k below

end Instruction

namespace Machine

variable {m : Machine} {caller : State}

/-- Inside a call every operation but a rewind or a reset stays there, or it is a step that
returns from it. -/
theorem insideCall_perform (h : caller.InsideCall m.state) {o : Operation} (rewind : o ≠ .rewind)
    (reset : o ≠ .reset) :
    caller.InsideCall (m.perform o).2.state ∨
      o = .step ∧ (m.perform o).1 = .stepped (.executed .ret) ∧
        caller.BehindCall (m.perform o).2.state := by
  by_cases step : o = .step
  · subst step
    rcases perform_step_cases m with ⟨i, -, stepped⟩ | ⟨o, -, stepped⟩
    · rw [stepped]
      rcases Instruction.insideCall_apply m.dialect m.random h i with inside | ⟨rfl, behind⟩
      · exact .inl inside
      · exact .inr ⟨rfl, rfl, behind⟩
    · rw [stepped]
      exact .inl h
  · left
    obtain ⟨_, _, _, _, _, _, _, _, _, _, shape⟩ := perform_shape m step rewind reset
    rw [shape]
    exact { h with }

/-- A run that has not come back to the caller's depth is inside the call. -/
theorem insideCall_after (h : caller.InsideCall m.state) {run : List Operation}
    (forward : ∀ o ∈ run, o ≠ .rewind ∧ o ≠ .reset)
    (away : ∀ before, before <+: run → (m.after before).state.sp ≠ caller.sp) :
    caller.InsideCall (m.after run).state := by
  induction run generalizing m with
  | nil => exact h
  | cons o run ih =>
    obtain ⟨rewind, reset⟩ := forward o List.mem_cons_self
    rcases insideCall_perform h rewind reset with inside | ⟨-, -, behind⟩
    · refine ih inside (fun o' later => forward o' (List.mem_cons_of_mem o later)) ?_
      intro before early
      exact away (o :: before) (List.prefix_cons_inj o |>.mpr early)
    · exact absurd behind.level (away [o] (by simp))

theorem insideCall_step {target : Address} (calls : m.step.1 = .executed (.call target)) :
    m.state.InsideCall m.step.2.state := by
  obtain ⟨up, stepped⟩ := upcoming_of_step_eq_executed calls
  rw [stepped]
  exact Instruction.insideCall_call m.dialect m.random target (upcoming_eq_ok_iff.mp up).2.2.2

/-- From a call on, as long as the stack does not come back to the caller's depth, it is deeper, holds
the place of the call above the caller's cells, and leaves those alone. What brings it back is a
return, behind the call. Apart from rewinds and resets anything may be done in between. -/
theorem call_nests {target : Address} (calls : m.step.1 = .executed (.call target))
    {run : List Operation} (forward : ∀ o ∈ run, o ≠ .rewind ∧ o ≠ .reset)
    (away : ∀ before, before <+: run → (m.step.2.after before).state.sp ≠ m.state.sp) :
    let inside := m.step.2.after run
    m.state.sp < inside.state.sp ∧
      inside.state.stack[m.state.sp]? = some m.state.pc ∧
      (∀ k, k < m.state.sp → inside.state.stack[k]? = m.state.stack[k]?) ∧
      ∀ o, o ≠ .rewind → o ≠ .reset → (inside.perform o).2.state.sp = m.state.sp →
        o = .step ∧ (inside.perform o).1 = .stepped (.executed .ret) ∧
          (inside.perform o).2.state.pc.toNat = m.state.pc.toNat + 2 ∧
          ∀ k, k < m.state.sp → (inside.perform o).2.state.stack[k]? = m.state.stack[k]? := by
  intro inside
  have within : m.state.InsideCall inside.state :=
    insideCall_after (insideCall_step calls) forward away
  refine ⟨within.deeper, within.place, within.kept, fun o rewind reset level => ?_⟩
  rcases insideCall_perform within rewind reset with still | ⟨step, returned, behind⟩
  · exact absurd level (Nat.ne_of_gt still.deeper)
  · refine ⟨step, returned, ?_, behind.kept⟩
    rw [behind.pc, toNat_pc_add_two_of_upcoming (upcoming_of_step_eq_executed calls).1]

/-- A program that calls a subroutine that calls another. -/
def nestedCalls : Machine :=
  (new Dialect.common (.ofList [])).after
    [.load [0x22, 0x04, 0x12, 0x02, 0x22, 0x08, 0x00, 0xEE, 0x00, 0xEE]]

/-- Into the inner subroutine and back, with a key and a frame in between. -/
def innerCall : List Operation := [.step, .tick, .press 5, .step, .takeFrame]

/-- The return after the inner call is behind the outer one. -/
theorem call_nests_inner :
    nestedCalls.step.1 = .executed (.call (Opcode.address 0x2204)) ∧
      (∀ o ∈ innerCall, o ≠ .rewind ∧ o ≠ .reset) ∧
      (∀ before, before <+: innerCall →
        (nestedCalls.step.2.after before).state.sp ≠ nestedCalls.state.sp) ∧
      let inside := nestedCalls.step.2.after innerCall
      nestedCalls.state.sp < inside.state.sp ∧
        (inside.perform .step).2.state.sp = nestedCalls.state.sp ∧
        (inside.perform .step).1 = .stepped (.executed .ret) ∧
        (inside.perform .step).2.state.pc.toNat = nestedCalls.state.pc.toNat + 2 := by
  have ⟨calls, depths, level⟩ :
      nestedCalls.step.1 = .executed (.call (Opcode.address 0x2204)) ∧
      (∀ n, n < 6 → (nestedCalls.step.2.after (innerCall.take n)).state.sp ≠ nestedCalls.state.sp) ∧
      ((nestedCalls.step.2.after innerCall).perform .step).2.state.sp = nestedCalls.state.sp := by
    decide +kernel
  have forward : ∀ o ∈ innerCall, o ≠ .rewind ∧ o ≠ .reset := by simp [innerCall]
  have away : ∀ before, before <+: innerCall →
      (nestedCalls.step.2.after before).state.sp ≠ nestedCalls.state.sp := by
    intro before early
    rw [List.prefix_iff_eq_take.mp early]
    exact depths before.length (Nat.lt_succ_of_le early.length_le)
  obtain ⟨deeper, -, -, returns⟩ := call_nests calls forward away
  obtain ⟨-, returned, behind, -⟩ := returns .step (by simp) (by simp) level
  exact ⟨calls, forward, away, deeper, level, returned, behind⟩

end Machine
end Chip8
