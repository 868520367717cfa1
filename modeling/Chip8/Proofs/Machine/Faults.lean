import Chip8.Proofs.Machine.Range

/-!
# Steps that fault

In a machine that was reached from a new one a step faults just where the table of faults says so,
and with the fault that it says. A step that faults leaves the machine as it was, and so does one
that finds a register waiting for a key.
-/

namespace Chip8.Machine

variable {m : Machine}

theorem step_eq_faulted_iff {f : Fault} :
    m.step.1 = .faulted f ↔ m.upcoming = .error (.faulted f) := by
  rcases step_cases m with ⟨i, up, stepped⟩ | ⟨o, up, -, stepped⟩
  · rw [stepped, up]
    cases i <;> simp [Outcome.ran]
  · rw [stepped, up]
    exact Except.error.injEq .. ▸ Iff.rfl

private theorem faults_iff_of_fetch_error {s : State} {f g : Fault} (h : s.fetch = .error g) :
    s.Faults f ↔ g = f := by
  obtain ⟨outside, rfl⟩ := State.fetch_eq_error_iff.mp h
  have size : Memory.size = 4096 := rfl
  constructor
  · intro faults
    cases faults with
    | fetch => rfl
    | ret inside => omega
    | call inside => omega
    | draw inside => omega
    | digits inside => omega
    | transfer inside => omega
  · rintro rfl
    exact .fetch (by omega)

private theorem faults_iff_of_fetch_ok {s : State} {f : Fault} {op : Opcode} (h : s.fetch = .ok op)
    (depth : s.sp ≤ 16) : s.Faults f ↔ (Instruction.decode op).fault? s = some f := by
  obtain ⟨inside, rfl⟩ := State.fetch_eq_ok_iff.mp h
  have size : Memory.size = 4096 := rfl
  have row : (Instruction.decode (s.memory.word s.pc.toNat)).WrittenAs s.opcode := by
    have word : s.opcode = (s.memory.word s.pc.toNat).toNat := (Memory.toNat_word ..).symm
    rw [word]
    exact Instruction.writtenAs_decode _
  constructor
  · exact Instruction.fault?_of_faults (by omega) row
  · exact Instruction.faults_of_fault? (by omega) depth row

private theorem upcoming_faulted_iff (h : m.InRange) {f : Fault} :
    m.upcoming = .error (.faulted f) ↔ m.state.awaiting = none ∧ m.state.Faults f := by
  rw [upcoming_eq_faulted_iff]
  refine and_congr_right fun _ => ?_
  cases fetched : m.state.fetch with
  | error g => simp [faults_iff_of_fetch_error fetched]
  | ok op => simp [faults_iff_of_fetch_ok fetched h.state.sp_le]

/-- Whatever was done to a new machine, its next step faults just where the table says so, and
changes nothing where it faults or finds a register waiting. -/
theorem step_faults_iff (d : Dialect) (w : WordStream) (os : List Operation) :
    let m := (new d w).after os
    (∀ f, m.step.1 = .faulted f ↔ m.state.awaiting = none ∧ m.state.Faults f) ∧
      (∀ f, m.step.1 = .faulted f → m.step.2 = m) ∧
      ∀ x, m.step.1 = .awaiting x → m.step.2 = m := by
  intro m
  have range : m.InRange := inRange_after d w os
  refine ⟨fun f => ?_, fun f faulted => ?_, fun x waits => ?_⟩
  · rw [step_eq_faulted_iff, upcoming_faulted_iff range]
  · exact step_of_not_moved (by rw [faulted]; rfl)
  · exact step_of_not_moved (by rw [waits]; rfl)

end Chip8.Machine
