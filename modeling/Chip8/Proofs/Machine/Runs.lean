import Chip8.Machine.Operation

/-!
# Runs of operations

What a single operation can do to a machine, said once, and the induction that carries a property
along a list of operations. A step runs the upcoming instruction or changes nothing; only steps,
rewinds and resets move the program counter, the stack, the index, the picture and the history.
-/

namespace Chip8

theorem State.fetch_eq_ok_iff {s : State} {op : Opcode} :
    s.fetch = .ok op ↔ s.pc.toNat + 1 < Memory.size ∧ s.memory.word s.pc.toNat = op := by
  unfold State.fetch
  split <;> simp [*]

theorem State.fetch_eq_error_iff {s : State} {f : Fault} :
    s.fetch = .error f ↔
      ¬s.pc.toNat + 1 < Memory.size ∧ Fault.outOfRange s.pc (s.pc.toNat + 1) = f := by
  unfold State.fetch
  split <;> simp [*]

namespace Machine

theorem upcoming_eq_ok_iff {m : Machine} {i : Instruction} :
    m.upcoming = .ok i ↔ m.state.awaiting = none ∧ m.state.pc.toNat + 1 < Memory.size ∧
      Instruction.decode (m.state.memory.word m.state.pc.toNat) = i ∧
      i.fault? m.state = none := by
  unfold upcoming
  split
  · simp_all
  · next free =>
    split
    · next f faulty =>
      have outside := (State.fetch_eq_error_iff.mp faulty).1
      simp [outside]
    · next op fetched =>
      obtain ⟨inside, rfl⟩ := State.fetch_eq_ok_iff.mp fetched
      split
      · next f faulty =>
        simp only [reduceCtorEq, false_iff]
        rintro ⟨-, -, rfl, sound⟩
        exact nomatch faulty.symm.trans sound
      · next sound =>
        simp only [Except.ok.injEq, free, inside, true_and]
        constructor
        · rintro rfl
          exact ⟨rfl, sound⟩
        · exact And.left

theorem upcoming_eq_faulted_iff {m : Machine} {f : Fault} :
    m.upcoming = .error (.faulted f) ↔ m.state.awaiting = none ∧
      (m.state.fetch = .error f ∨ ∃ op, m.state.fetch = .ok op ∧
        (Instruction.decode op).fault? m.state = some f) := by
  unfold upcoming
  split
  · simp_all
  · split
    · simp_all
    · split <;> simp_all

/-- No instruction runs while a register waits, or where it would fault. -/
theorem upcoming_eq_error {m : Machine} {o : Outcome} (h : m.upcoming = .error o) :
    (∃ x, o = .awaiting x ∧ m.state.awaiting = some x) ∨ ∃ f, o = .faulted f := by
  unfold upcoming at h
  split at h
  · next x waits =>
    cases h
    exact .inl ⟨x, rfl, waits⟩
  · right
    split at h
    · cases h
      exact ⟨_, rfl⟩
    · split at h <;> cases h
      exact ⟨_, rfl⟩

theorem upcoming_error_not_moved {m : Machine} {o : Outcome} (h : m.upcoming = .error o) :
    o.moved = false := by
  rcases upcoming_eq_error h with ⟨x, rfl, -⟩ | ⟨f, rfl⟩ <;> rfl

/-- A step runs the upcoming instruction, or changes nothing. -/
theorem step_cases (m : Machine) :
    (∃ i, m.upcoming = .ok i ∧ m.step = (Outcome.ran i, m.run i)) ∨
      ∃ o, m.upcoming = .error o ∧ o.moved = false ∧ m.step = (o, m) := by
  cases h : m.upcoming with
  | ok i => exact .inl ⟨i, rfl, by simp [step, h]⟩
  | error o => exact .inr ⟨o, rfl, upcoming_error_not_moved h, by simp [step, h]⟩

/-- Machines with one instruction ahead of them run it both, or both change nothing. -/
theorem step_cases_of_upcoming_eq {m m' : Machine} (up : m'.upcoming = m.upcoming) :
    (∃ i, m.upcoming = .ok i ∧ m.step = (Outcome.ran i, m.run i) ∧
      m'.step = (Outcome.ran i, m'.run i)) ∨
      ∃ o, m.upcoming = .error o ∧ m.step = (o, m) ∧ m'.step = (o, m') := by
  rcases step_cases m with ⟨i, ready, stepped⟩ | ⟨o, stuck, -, stepped⟩
  · exact .inl ⟨i, ready, stepped, by simp [step, up, ready]⟩
  · exact .inr ⟨o, stuck, stepped, by simp [step, up, stuck]⟩

theorem perform_step_cases (m : Machine) :
    (∃ i, m.upcoming = .ok i ∧ m.perform .step = (.stepped (Outcome.ran i), m.run i)) ∨
      ∃ o : Outcome, o.moved = false ∧ m.perform .step = (.stepped o, m) := by
  rcases step_cases m with ⟨i, up, stepped⟩ | ⟨o, -, still, stepped⟩
  · exact .inl ⟨i, up, by simp [perform, stepped]⟩
  · exact .inr ⟨o, still, by simp [perform, stepped]⟩

/-- What a step says it executed was upcoming. -/
theorem upcoming_of_step_eq_executed {m : Machine} {i : Instruction}
    (h : m.step.1 = .executed i) : m.upcoming = .ok i ∧ m.step.2 = m.run i := by
  rcases step_cases m with ⟨j, up, stepped⟩ | ⟨o, -, still, stepped⟩
  · rw [stepped] at h ⊢
    have same : j = i := by
      cases j with
      | unsupported op => exact nomatch h
      | _ => exact Outcome.executed.inj h
    exact ⟨same ▸ up, same ▸ rfl⟩
  · rw [stepped] at h
    rw [show o = .executed i from h] at still
    exact nomatch still

theorem step_of_not_moved {m : Machine} (h : m.step.1.moved = false) : m.step.2 = m := by
  rcases step_cases m with ⟨i, -, stepped⟩ | ⟨o, -, -, stepped⟩
  · simp [stepped] at h
  · simp [stepped]

theorem press_shape (k : UInt8) (m : Machine) :
    ∃ keypad v awaiting, m.press k = { m with state := { m.state with keypad, v, awaiting } } := by
  unfold press
  split
  · exact ⟨_, _, _, rfl⟩
  · dsimp only
    split
    · split <;> exact ⟨_, _, _, rfl⟩
    · exact ⟨_, _, _, rfl⟩

theorem release_shape (k : UInt8) (m : Machine) :
    ∃ keypad, m.release k = { m with state := { m.state with keypad } } := by
  unfold release
  split <;> exact ⟨_, rfl⟩

theorem load_eq_ok_iff {program : List UInt8} {m loaded : Machine} :
    m.load program = .ok loaded ↔ program.length ≤ romLimit ∧
      loaded = { m with state := m.state.install program, program } := by
  unfold load
  split <;> simp [*, eq_comm]

theorem loadRom_eq_ok {file : Reader} {m loaded : Machine} {size : Nat}
    (h : m.loadRom file = .ok (size, loaded)) :
    ∃ program, m.load program = .ok loaded ∧ size = program.length := by
  unfold loadRom at h
  split at h
  · cases h
  · next program _ =>
    cases hl : m.load program with
    | error e => simp [hl, Except.map] at h
    | ok l =>
      simp only [hl, Except.map, Except.ok.injEq, Prod.mk.injEq] at h
      exact ⟨program, by rw [hl, h.2], h.1.symm⟩

/-- A program that is loaded, in either way, fits, and changes memory and the kept program only. -/
theorem perform_load_cases (m : Machine) {o : Operation}
    (ho : (∃ program, o = .load program) ∨ ∃ file, o = .loadRom file) :
    (m.perform o).2 = m ∨ ∃ program : List UInt8, program.length ≤ romLimit ∧
      (m.perform o).2 = { m with state := m.state.install program, program } := by
  rcases ho with ⟨program, rfl⟩ | ⟨file, rfl⟩
  · unfold perform
    dsimp only
    split
    · next loaded => exact .inr ⟨program, load_eq_ok_iff.mp loaded⟩
    · exact .inl rfl
  · unfold perform
    dsimp only
    split
    · next loaded =>
      obtain ⟨program, read, -⟩ := loadRom_eq_ok loaded
      exact .inr ⟨program, load_eq_ok_iff.mp read⟩
    · exact .inl rfl

theorem rewind_cases (m : Machine) :
    (m.saved = [] ∧ m.perform .rewind = (.rewound false, m)) ∨
      ∃ s back, m.rewind? = some back ∧ m.perform .rewind = (.rewound true, back) ∧
        m.saved = s :: back.saved ∧
        back = { m with state := { s with keypad := m.state.keypad, redraw := true }
                        history := back.history } := by
  cases h : m.rewind? with
  | none => exact .inl ⟨(rewind?_eq_none_iff m).mp h, by simp [perform, h]⟩
  | some back =>
    obtain ⟨s, saved, -⟩ := saved_of_rewind? h
    refine .inr ⟨s, back, rfl, by simp [perform, h], saved, ?_⟩
    unfold rewind? at h
    split at h
    · cases h
    · next top rest popped =>
      cases h
      have := History.entries_of_pop? popped
      simp only [Machine.saved, this, List.cons.injEq] at saved
      rw [saved.1]

/-- Machines whose saved states look alike go back both, to states that look alike, or both stay. -/
theorem rewind_cases_of_saved_eq {α : Type} {look : State → α} {m m' : Machine}
    (h : m'.saved.map look = m.saved.map look) :
    (m.perform .rewind = (.rewound false, m) ∧ m'.perform .rewind = (.rewound false, m')) ∨
      ∃ s s' back back', m.perform .rewind = (.rewound true, back) ∧
        m'.perform .rewind = (.rewound true, back') ∧ look s' = look s ∧
        back'.saved.map look = back.saved.map look ∧
        back = { m with state := { s with keypad := m.state.keypad, redraw := true }
                        history := back.history } ∧
        back' = { m' with state := { s' with keypad := m'.state.keypad, redraw := true }
                          history := back'.history } := by
  rcases rewind_cases m with ⟨none, same⟩ | ⟨s, back, -, went, top, shape⟩ <;>
    rcases rewind_cases m' with ⟨none', same'⟩ | ⟨s', back', -, went', top', shape'⟩
  · exact .inl ⟨same, same'⟩
  · rw [none, top'] at h
    exact nomatch h
  · rw [none', top] at h
    exact nomatch h
  · rw [top, top', List.map_cons, List.map_cons] at h
    obtain ⟨alike, older⟩ := List.cons.inj h
    exact .inr ⟨s, s', back, back', went, went', alike, older, shape, shape'⟩

/-- Of the operations that are no steps, rewinds or resets, only presses touch the registers and
what waits for a key. -/
theorem perform_shape_of_ne_press (m : Machine) {o : Operation} (step : o ≠ .step)
    (rewind : o ≠ .rewind) (reset : o ≠ .reset) (press : ∀ k, o ≠ .press k) :
    ∃ delay sound memory redraw keypad program dialect random,
      (m.perform o).2 = { m with
        state := { m.state with delay, sound, memory, redraw, keypad }
        program, dialect, random } := by
  cases o with
  | step => contradiction
  | rewind => contradiction
  | reset => contradiction
  | press k => exact absurd rfl (press k)
  | release k =>
    obtain ⟨keypad, h⟩ := release_shape k m
    exact ⟨_, _, _, _, _, _, _, _, h⟩
  | load program =>
    rcases perform_load_cases m (.inl ⟨program, rfl⟩) with h | ⟨program, -, h⟩
    · exact ⟨_, _, _, _, _, _, _, _, h⟩
    · exact ⟨_, _, _, _, _, _, _, _, h⟩
  | loadRom file =>
    rcases perform_load_cases m (.inr ⟨file, rfl⟩) with h | ⟨program, -, h⟩
    · exact ⟨_, _, _, _, _, _, _, _, h⟩
    · exact ⟨_, _, _, _, _, _, _, _, h⟩
  | tick => exact ⟨_, _, _, _, _, _, _, _, rfl⟩
  | takeFrame => exact ⟨_, _, _, _, _, _, _, _, rfl⟩
  | clearRedraw => exact ⟨_, _, _, _, _, _, _, _, rfl⟩
  | setDialect d => exact ⟨_, _, _, _, _, _, _, _, rfl⟩
  | setRandom w => exact ⟨_, _, _, _, _, _, _, _, rfl⟩

/-- Apart from steps, rewinds and resets no operation touches the history, or the program counter,
the stack, the index and the picture. -/
theorem perform_shape (m : Machine) {o : Operation} (step : o ≠ .step) (rewind : o ≠ .rewind)
    (reset : o ≠ .reset) :
    ∃ v delay sound memory redraw keypad awaiting program dialect random,
      (m.perform o).2 = { m with
        state := { m.state with v, delay, sound, memory, redraw, keypad, awaiting }
        program, dialect, random } := by
  by_cases press : ∃ k, o = .press k
  · obtain ⟨k, rfl⟩ := press
    obtain ⟨keypad, v, awaiting, h⟩ := press_shape k m
    exact ⟨_, _, _, _, _, _, _, _, _, _, h⟩
  · have other : ∀ k, o ≠ .press k := fun k same => press ⟨k, same⟩
    obtain ⟨_, _, _, _, _, _, _, _, h⟩ := perform_shape_of_ne_press m step rewind reset other
    exact ⟨_, _, _, _, _, _, _, _, _, _, h⟩

theorem saved_perform_other {m : Machine} {o : Operation} (step : o ≠ .step) (rewind : o ≠ .rewind)
    (reset : o ≠ .reset) : (m.perform o).2.saved = m.saved := by
  obtain ⟨_, _, _, _, _, _, _, _, _, _, shape⟩ := perform_shape m step rewind reset
  rw [shape]
  rfl

@[simp]
theorem answers_append (os os' : List Operation) (m : Machine) :
    m.answers (os ++ os') = m.answers os ++ (m.after os).answers os' := by
  induction os generalizing m with
  | nil => rfl
  | cons o os ih => exact congrArg ((m.perform o).1 :: ·) (ih (m.perform o).2)

/-- What every operation of a list keeps holds after the list. -/
theorem after_induction_of_mem {P : Machine → Prop} {os : List Operation}
    (keeps : ∀ m, ∀ o ∈ os, P m → P (m.perform o).2) {m : Machine} (start : P m) :
    P (m.after os) := by
  induction os generalizing m with
  | nil => exact start
  | cons o os ih =>
    exact ih (fun m o' later => keeps m o' (List.mem_cons_of_mem o later))
      (keeps m o List.mem_cons_self start)

/-- What every operation keeps holds after every list of operations. -/
theorem after_induction {P : Machine → Prop} (keeps : ∀ m o, P m → P (m.perform o).2)
    {m : Machine} (start : P m) (os : List Operation) : P (m.after os) :=
  after_induction_of_mem (fun m o _ => keeps m o) start

/-- What an operation keeps holds however often it is done. -/
theorem after_replicate_induction {P : Machine → Prop} {o : Operation}
    (keeps : ∀ m, P m → P (m.perform o).2) {m : Machine} (start : P m) (n : Nat) :
    P (m.after (List.replicate n o)) :=
  after_induction_of_mem (fun m _ inside => List.eq_of_mem_replicate inside ▸ keeps m) start

/-- Two machines that every operation of a list answers alike, and leaves related as they were,
answer the whole list alike. -/
theorem lockstep (R : Machine → Machine → Prop) {m m' : Machine} {os : List Operation}
    (keeps : ∀ before o, before ++ [o] <+: os → R (m.after before) (m'.after before) →
      ((m'.after before).perform o).1 = ((m.after before).perform o).1 ∧
        R ((m.after before).perform o).2 ((m'.after before).perform o).2)
    (start : R m m') : m'.answers os = m.answers os ∧ R (m.after os) (m'.after os) := by
  induction os generalizing m m' with
  | nil => exact ⟨rfl, start⟩
  | cons o os ih =>
    obtain ⟨same, next⟩ := keeps [] o (by simp) start
    obtain ⟨rest, last⟩ := ih (fun before o' inside =>
      keeps (o :: before) o' (List.prefix_cons_inj o |>.mpr inside)) next
    exact ⟨List.cons_eq_cons.mpr ⟨same, rest⟩, last⟩

/-- What stays as it is unless an operation sets it is what the latest such operation set. -/
theorem after_latest {α : Type} (field : Machine → α) {sets : Operation → Answer → Option α}
    (set : ∀ m o, field (m.perform o).2 = (sets o (m.perform o).1).getD (field m))
    (os : List Operation) (m : Machine) :
    field (m.after os) =
      ((os.zip (m.answers os)).reverse.findSome? fun (o, a) => sets o a).getD (field m) := by
  induction os generalizing m with
  | nil => rfl
  | cons o os ih =>
    rw [after_cons, ih, set, answers, List.zip_cons_cons, List.reverse_cons, List.findSome?_append]
    cases (os.zip _).reverse.findSome? _ <;> simp [List.findSome?_singleton]

end Machine
end Chip8
