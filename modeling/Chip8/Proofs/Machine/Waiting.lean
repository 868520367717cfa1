import Chip8.Proofs.Instruction.Faults
import Chip8.Proofs.Instruction.Footprint
import Chip8.Proofs.Machine.Range

/-!
# Waiting for a key

A register waits from the step that asked for a key until a key goes down that was not held, a
rewind or a reset. The state before that step is the newest saved one all the while, since nothing
runs that could save another, and apart from memory, timers, keys and the mark to draw the waiting
machine is that state past the instruction. No saved state waits.
-/

namespace Chip8

/-- A press of this key is seen by a register that waits: it is a keypad key that was up. -/
def State.Wakes (s : State) (k : UInt8) : Prop :=
  k.toNat ≤ 0xF ∧ s.keypad.get (Nibble.ofNat k.toNat) = false

/-- The operations that end a wait for a key in a state. -/
def Operation.EndsWait (s : State) : Operation → Prop
  | .reset | .rewind => True
  | .press k => s.Wakes k
  | _ => False

/-- A state that waits for a key into `x` after the instruction that the state `h` was about to
run. -/
structure State.WaitsSince (s : State) (x : Reg) (h : State) : Prop where
  free : h.awaiting = none
  word : (h.memory.word h.pc.toNat).toNat = 0xF00A + 0x100 * x
  pc : s.pc.toNat = h.pc.toNat + 2
  v : s.v = h.v
  i : s.i = h.i
  sp : s.sp = h.sp
  stack : s.stack = h.stack
  frame : s.frame = h.frame

namespace Machine

variable {m : Machine} {x : Reg}

private theorem key?_of_le {k : UInt8} (known : k.toNat ≤ 0xF) :
    key? k = some (Nibble.ofNat k.toNat) := if_pos (Nat.lt_succ_of_le known)

theorem press_of_wakes {k : UInt8} (waits : m.state.awaiting = some x) (wakes : m.state.Wakes k) :
    m.press k = { m with state := { m.state with
      v := m.state.v.put x k
      awaiting := none
      keypad := m.state.keypad.put (Nibble.ofNat k.toNat) true } } := by
  obtain ⟨known, up⟩ := wakes
  simp [press, key?_of_le known, waits, up]

theorem awaiting_press_of_wakes {k : UInt8} (wakes : m.state.Wakes k) :
    (m.press k).state.awaiting = none := by
  cases waits : m.state.awaiting with
  | some _ => rw [press_of_wakes waits wakes]
  | none => simp [press, key?_of_le wakes.1, waits]

theorem press_of_not_wakes {k : UInt8} (asleep : ¬m.state.Wakes k) :
    ∃ keypad, m.press k = { m with state := { m.state with keypad } } := by
  by_cases known : k.toNat ≤ 0xF
  · have held : m.state.keypad.get (Nibble.ofNat k.toNat) = true :=
      Bool.eq_true_of_not_eq_false fun up => asleep ⟨known, up⟩
    unfold press
    simp only [key?_of_le known, held, if_true]
    cases m.state.awaiting <;> exact ⟨_, rfl⟩
  · have unknown : key? k = none := if_neg fun lt => known (Nat.le_of_lt_succ lt)
    exact ⟨_, by rw [press, unknown]⟩

/-- Steps apart, an operation that does not end a wait keeps the history, the registers and what
waits. -/
theorem perform_shape_of_not_endsWait {o : Operation} (step : o ≠ .step)
    (on : ¬o.EndsWait m.state) :
    ∃ delay sound memory redraw keypad program dialect random,
      (m.perform o).2 = { m with
        state := { m.state with delay, sound, memory, redraw, keypad }
        program, dialect, random } := by
  by_cases press : ∃ k, o = .press k
  · obtain ⟨k, rfl⟩ := press
    obtain ⟨keypad, shape⟩ := press_of_not_wakes on
    exact ⟨_, _, _, _, _, _, _, _, shape⟩
  · refine perform_shape_of_ne_press m step ?_ ?_ fun k same => press ⟨k, same⟩
    · rintro rfl
      exact on trivial
    · rintro rfl
      exact on trivial

/-- What a wait for a key leaves behind it in the history. -/
structure WaitsInOrder (m : Machine) : Prop where
  saved_free : ∀ s ∈ m.saved, s.awaiting = none
  since : ∀ x, m.state.awaiting = some x →
    ∃ h older, m.saved = h :: older ∧ m.state.WaitsSince x h

theorem waitsInOrder_of_free (saved : ∀ s ∈ m.saved, s.awaiting = none)
    (free : m.state.awaiting = none) : m.WaitsInOrder :=
  ⟨saved, fun _ waits => nomatch free.symm.trans waits⟩

/-- An instruction that asks for a key is found in memory, and moves on by one word. -/
theorem waitsSince_run (up : m.upcoming = .ok (.awaitKey x)) :
    (m.run (.awaitKey x)).state.WaitsSince x m.state := by
  obtain ⟨free, -, decoded, -⟩ := upcoming_eq_ok_iff.mp up
  have row := Instruction.writtenAs_decode (m.state.memory.word m.state.pc.toNat)
  rw [decoded] at row
  exact ⟨free, row, toNat_pc_add_two_of_upcoming up, rfl, rfl, rfl, rfl, rfl⟩

private theorem waitsInOrder_run (h : m.WaitsInOrder) {i : Instruction} (up : m.upcoming = .ok i) :
    (m.run i).WaitsInOrder := by
  have free := (upcoming_eq_ok_iff.mp up).1
  have saved : ∀ s ∈ (m.run i).saved, s.awaiting = none := by
    intro s old
    rw [saved_run] at old
    rcases List.mem_cons.mp (List.mem_of_mem_take old) with rfl | old
    · exact free
    · exact h.saved_free s old
  refine ⟨saved, fun x waits => ?_⟩
  -- nothing waited before the step, so the instruction itself asked for the key
  have same : i = .awaitKey x := by
    change (i.apply m.dialect m.random m.state).awaiting = some x at waits
    rw [Instruction.awaiting_apply, free] at waits
    cases i with
    | awaitKey y => exact congrArg Instruction.awaitKey (Option.some.inj waits)
    | _ => exact nomatch waits
  subst same
  exact ⟨m.state, _, saved_run .., waitsSince_run up⟩

theorem WaitsInOrder.ended (h : m.WaitsInOrder) {o : Operation} (ends : o.EndsWait m.state) :
    (m.perform o).2.state.awaiting = none ∧ (m.perform o).2.saved ⊆ m.saved := by
  cases o with
  | rewind =>
    rcases rewind_cases m with ⟨none, same⟩ | ⟨s, back, -, went, saved, shape⟩
    · rw [same]
      refine ⟨Option.eq_none_iff_forall_ne_some.mpr fun x waits => ?_, List.Subset.refl _⟩
      obtain ⟨s, older, saved, -⟩ := h.since x waits
      exact nomatch none.symm.trans saved
    · rw [went, saved]
      refine ⟨?_, List.subset_cons_self s back.saved⟩
      rw [shape]
      exact h.saved_free s (by simp [saved])
  | reset => exact ⟨rfl, by simp [perform]⟩
  | press k =>
    obtain ⟨keypad, v, awaiting, shape⟩ := press_shape k m
    have saved : (m.press k).saved = m.saved := by rw [shape]; rfl
    exact ⟨awaiting_press_of_wakes ends, by simp [perform, saved]⟩
  | _ => exact ends.elim

theorem waitsInOrder_perform (m : Machine) (o : Operation) (h : m.WaitsInOrder) :
    (m.perform o).2.WaitsInOrder := by
  by_cases step : o = .step
  · subst step
    rcases perform_step_cases m with ⟨i, up, stepped⟩ | ⟨o, -, stepped⟩
    · rw [stepped]
      exact waitsInOrder_run h up
    · rw [stepped]
      exact h
  by_cases ends : o.EndsWait m.state
  · obtain ⟨free, fewer⟩ := h.ended ends
    exact waitsInOrder_of_free (fun s old => h.saved_free s (fewer old)) free
  · obtain ⟨_, _, _, _, _, _, _, _, shape⟩ := perform_shape_of_not_endsWait step ends
    rw [shape]
    refine ⟨h.saved_free, fun x waits => ?_⟩
    obtain ⟨s, older, saved, since⟩ := h.since x waits
    exact ⟨s, older, saved, { since with }⟩

theorem waitsInOrder_after (d : Dialect) (w : WordStream) (os : List Operation) :
    ((new d w).after os).WaitsInOrder :=
  after_induction waitsInOrder_perform (waitsInOrder_of_free (by simp) rfl) os

theorem step_of_awaiting (waits : m.state.awaiting = some x) : m.step = (.awaiting x, m) := by
  simp [step, upcoming, waits]

theorem perform_of_awaiting (waits : m.state.awaiting = some x) {o : Operation}
    (on : ¬o.EndsWait m.state) :
    (m.perform o).2.state.awaiting = some x ∧ (m.perform o).2.saved = m.saved := by
  by_cases step : o = .step
  · subst step
    simp [perform, step_of_awaiting waits, waits]
  · obtain ⟨_, _, _, _, _, _, _, _, shape⟩ := perform_shape_of_not_endsWait step on
    rw [shape]
    exact ⟨waits, rfl⟩

/-- A wait goes on until an operation that ends it. -/
theorem after_of_awaiting (waits : m.state.awaiting = some x) {os : List Operation}
    (on : ∀ before o, before ++ [o] <+: os → ¬o.EndsWait (m.after before).state) :
    (m.after os).state.awaiting = some x ∧ (m.after os).saved = m.saved := by
  induction os generalizing m with
  | nil => exact ⟨waits, rfl⟩
  | cons o os ih =>
    have first : ¬o.EndsWait m.state := on [] o (by simp)
    obtain ⟨still, saved⟩ := perform_of_awaiting waits first
    have rest := ih still fun before o' inside =>
      on (o :: before) o' (List.prefix_cons_inj o |>.mpr inside)
    exact ⟨rest.1, rest.2.trans saved⟩

/-- In whatever way a machine was reached, the history knows where a wait began, and the wait is
ended by a reset, by a rewind to there, or by a key that goes down, and by nothing else. -/
theorem wait_protocol (d : Dialect) (w : WordStream) (os : List Operation) :
    let m := (new d w).after os
    (∀ s ∈ m.saved, s.awaiting = none) ∧
      ∀ x, m.state.awaiting = some x →
        (∃ h older, m.saved = h :: older ∧ m.state.WaitsSince x h ∧
          (m.perform .rewind).1 = .rewound true ∧ (m.perform .rewind).2.saved = older ∧
          (m.perform .rewind).2.state = { h with keypad := m.state.keypad, redraw := true }) ∧
        m.perform .step = (.stepped (.awaiting x), m) ∧
        (∀ later, (∀ before o, before ++ [o] <+: later → ¬o.EndsWait (m.after before).state) →
          (m.after later).state.awaiting = some x ∧ (m.after later).saved = m.saved) ∧
        (∀ o, o.EndsWait m.state → (m.perform o).2.state.awaiting = none) ∧
        ∀ k, m.state.Wakes k → m.press k = { m with state := { m.state with
          v := m.state.v.put x k
          awaiting := none
          keypad := m.state.keypad.put (Nibble.ofNat k.toNat) true } } := by
  intro m
  have order : m.WaitsInOrder := waitsInOrder_after d w os
  refine ⟨order.saved_free, fun x waits => ⟨?_, ?_, ?_, ?_, ?_⟩⟩
  · obtain ⟨h, older, saved, since⟩ := order.since x waits
    rcases rewind_cases m with ⟨none, -⟩ | ⟨s, back, -, went, top, shape⟩
    · exact nomatch saved.symm.trans none
    · obtain ⟨rfl, rfl⟩ := List.cons.inj (saved.symm.trans top)
      refine ⟨h, _, saved, since, by rw [went], by rw [went], ?_⟩
      rw [went, shape]
  · simp [perform, step_of_awaiting waits]
  · exact fun later on => after_of_awaiting waits on
  · exact fun o ends => (order.ended ends).1
  · exact fun k wakes => press_of_wakes waits wakes

/-- A program that asks for a key into V1, behind its first step. -/
def asksAtOnce : Machine := (new Dialect.common (.ofList [])).after [.load [0xF1, 0x0A], .step]

theorem wait_protocol_asksAtOnce :
    asksAtOnce.state.awaiting = some (Nibble.ofNat 1) ∧ asksAtOnce.state.Wakes 0xA ∧
      (∃ h older, asksAtOnce.saved = h :: older ∧
        asksAtOnce.state.WaitsSince (Nibble.ofNat 1) h) ∧
      asksAtOnce.press 0xA = { asksAtOnce with state := { asksAtOnce.state with
        v := asksAtOnce.state.v.put (Nibble.ofNat 1) 0xA
        awaiting := none
        keypad := asksAtOnce.state.keypad.put (Nibble.ofNat 0xA) true } } := by
  have waits : asksAtOnce.state.awaiting = some (Nibble.ofNat 1) := by decide +kernel
  have wakes : asksAtOnce.state.Wakes 0xA := ⟨by decide, by decide +kernel⟩
  obtain ⟨-, protocol⟩ := wait_protocol Dialect.common (.ofList []) [.load [0xF1, 0x0A], .step]
  rw [← asksAtOnce] at protocol
  obtain ⟨⟨h, older, saved, since, -⟩, -, -, -, press⟩ := protocol _ waits
  exact ⟨waits, wakes, ⟨h, older, saved, since⟩, press 0xA wakes⟩

end Machine
end Chip8
