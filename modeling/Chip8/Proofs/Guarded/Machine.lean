import Chip8.Proofs.Guarded.Effect

/-!
# Runs with every sum and every place guarded

The operations on a machine over the guarded instructions. From a new machine every list of
operations stays in range and meets every guard, so that the guarded run gives the answers and the
machine of the plain one, and the picture that is left can be turned into colours.
-/

namespace Chip8

namespace State

/-- The word at the program counter, made of two places in memory. -/
def fetch? (s : State) : Option (Except Fault Opcode) :=
  if Memory.size ≤ s.pc.toNat + 1 then some (.error (.outOfRange s.pc (s.pc.toNat + 1)))
  else do
    let left ← s.memory[s.pc.toNat]?
    let right ← s.memory[s.pc.toNat + 1]?
    some (.ok (left.toUInt16 <<< 8 ||| right.toUInt16))

def install? (program : List UInt8) (s : State) : Option State :=
  s.setBytes? programStart program.length program

/-- The power-on state, whose glyphs are copied into memory of zeros. -/
def powerOn? : Option State :=
  { powerOn with memory := Memory.zero }.setBytes? 0 glyphs.length glyphs

end State

namespace Machine

def new? (d : Dialect) (w : WordStream) : Option Machine := do
  let state ← State.powerOn?
  some ⟨state, .empty, [], d, w⟩

def step? (m : Machine) : Option (Outcome × Machine) :=
  match m.state.awaiting with
  | some x => some (.awaiting x, m)
  | none => do
    match ← m.state.fetch? with
    | .error f => some (.faulted f, m)
    | .ok op =>
      let i := Instruction.decode op
      match ← i.execute? m.dialect m.random m.state with
      | .error f => some (.faulted f, m)
      | .ok state =>
        some (Outcome.ran i, { m with state, history := m.history.push m.state
                                      random := m.random.advance i.draws })

def press? (k : UInt8) (m : Machine) : Option Machine :=
  if 15 < k.toNat then some m
  else do
    let held ← m.state.held? k.toNat
    let s ← m.state.setHeld? k.toNat true
    match s.awaiting, held with
    | some x, false => do
      let s ← s.setReg? x k
      some { m with state := { s with awaiting := none } }
    | _, _ => some { m with state := s }

def release? (k : UInt8) (m : Machine) : Option Machine :=
  if 15 < k.toNat then some m
  else do
    let state ← m.state.setHeld? k.toNat false
    some { m with state }

def load? (program : List UInt8) (m : Machine) : Option (Except RomError Machine) :=
  if romLimit < program.length then some (.error (.tooLarge program.length))
  else do
    let state ← m.state.install? program
    some (.ok { m with state, program })

def loadRom? (file : Reader) (m : Machine) : Option (Except RomError (Nat × Machine)) :=
  match file.readUpTo (romLimit + 1) with
  | .error e => some (.error (.io e))
  | .ok program => (m.load? program).map (·.map (program.length, ·))

def reset? (m : Machine) : Option Machine := do
  let state ← State.powerOn?
  let state ← state.install? m.program
  some { m with state, history := .empty }

/-- Does one thing to a machine, if every sum and place is good. The operations that have neither
are done as they are. -/
def perform? (o : Operation) (m : Machine) : Option (Answer × Machine) :=
  match o with
  | .step => m.step?.map fun (outcome, m) => (.stepped outcome, m)
  | .press k => (m.press? k).map (.done, ·)
  | .release k => (m.release? k).map (.done, ·)
  | .load program => (m.load? program).map fun
    | .ok m => (.loaded program.length, m)
    | .error e => (.refused e, m)
  | .loadRom file => (m.loadRom? file).map fun
    | .ok (size, m) => (.loaded size, m)
    | .error e => (.refused e, m)
  | .reset => m.reset?.map (.done, ·)
  | .tick | .rewind | .takeFrame | .clearRedraw | .setDialect _ | .setRandom _ =>
    some (m.perform o)

/-- Does a list of things to a machine, if every sum and place is good. -/
def performAll? : List Operation → Machine → Option (List Answer × Machine)
  | [], m => some ([], m)
  | o :: rest, m => do
    let (answer, m) ← m.perform? o
    let (answers, m) ← m.performAll? rest
    some (answer :: answers, m)

end Machine

namespace State

theorem fetch?_eq (s : State) : s.fetch? = some s.fetch := by
  unfold fetch? fetch
  by_cases inside : s.pc.toNat + 1 < Memory.size
  · have left : s.pc.toNat < 4096 := Nat.lt_of_succ_lt inside
    have right : s.pc.toNat + 1 < 4096 := inside
    simp [inside, left, right, Nat.not_le.mpr inside, Memory.word, Memory.byte]
  · simp [inside, Nat.not_lt.mp inside]

theorem install?_eq {program : List UInt8} (s : State) (fits : program.length ≤ romLimit) :
    s.install? program = some (s.install program) :=
  if_pos ⟨Nat.add_le_add_left fits programStart, rfl⟩

theorem powerOn?_eq : powerOn? = some powerOn := by
  have fits : 0 + glyphs.length ≤ Memory.size := by decide
  rw [powerOn?, setBytes?, if_pos ⟨fits, rfl⟩]
  rfl

end State

namespace Machine

variable {m : Machine}

theorem new?_eq (d : Dialect) (w : WordStream) : new? d w = some (new d w) := by
  simp [new?, State.powerOn?_eq, new]

theorem step?_eq (h : m.InRange) : m.step? = some m.step := by
  unfold step? step upcoming
  cases m.state.awaiting with
  | some x => rfl
  | none =>
    simp only [State.fetch?_eq, Option.bind_eq_bind, Option.bind_some]
    cases fetched : m.state.fetch with
    | error f => rfl
    | ok op =>
      have inside := (State.fetch_eq_ok_iff.mp fetched).1
      have low : m.state.pc.toNat ≤ 0xFFE := by
        have size : Memory.size = 4096 := rfl
        omega
      simp only [Instruction.execute?_eq _ _ _ h.state low, Option.bind_some, Instruction.execute]
      cases (Instruction.decode op).fault? m.state with
      | some f => rfl
      | none => rfl

private theorem key?_eq_some {k : UInt8} (known : k.toNat < 16) :
    ∃ key : Nibble, k.toNat = key.val ∧ key? k = some key :=
  ⟨Nibble.ofNat k.toNat, (Nat.mod_eq_of_lt known).symm, if_pos known⟩

private theorem key?_eq_none {k : UInt8} (unknown : ¬k.toNat < 16) : key? k = none :=
  if_neg unknown

theorem press?_eq (k : UInt8) (m : Machine) : m.press? k = some (m.press k) := by
  unfold press? press
  by_cases known : k.toNat < 16
  · obtain ⟨key, value, found⟩ := key?_eq_some known
    have le : ¬15 < key.val := Nat.not_lt.mpr (Nat.le_of_lt_succ key.isLt)
    simp only [value, found, if_neg le, State.held?_val, State.setHeld?_val, Option.bind_eq_bind,
      Option.bind_some]
    cases m.state.awaiting with
    | none => rfl
    | some x => cases m.state.keypad.get key <;> simp [State.setReg]
  · rw [key?_eq_none known, if_pos (by omega)]

theorem release?_eq (k : UInt8) (m : Machine) : m.release? k = some (m.release k) := by
  unfold release? release
  by_cases known : k.toNat < 16
  · obtain ⟨key, value, found⟩ := key?_eq_some known
    have le : ¬15 < key.val := Nat.not_lt.mpr (Nat.le_of_lt_succ key.isLt)
    simp only [value, found, if_neg le, State.setHeld?_val, Option.bind_eq_bind, Option.bind_some]
  · rw [key?_eq_none known, if_pos (by omega)]

theorem load?_eq (program : List UInt8) (m : Machine) :
    m.load? program = some (m.load program) := by
  unfold load? load
  by_cases fits : program.length ≤ romLimit
  · simp [fits, Nat.not_lt.mpr fits, State.install?_eq m.state fits]
  · simp [fits, Nat.not_le.mp fits]

theorem loadRom?_eq (file : Reader) (m : Machine) : m.loadRom? file = some (m.loadRom file) := by
  unfold loadRom? loadRom
  cases file.readUpTo (romLimit + 1) with
  | error e => rfl
  | ok program => simp [load?_eq]

theorem reset?_eq (h : m.program.length ≤ romLimit) : m.reset? = some m.reset := by
  simp [reset?, State.powerOn?_eq, State.install?_eq State.powerOn h, reset]

/-- A machine in range meets every guard. -/
theorem perform?_eq (o : Operation) (h : m.InRange) : m.perform? o = some (m.perform o) := by
  cases o with
  | step => simp [perform?, step?_eq h, perform]
  | press k => simp [perform?, press?_eq, perform]
  | release k => simp [perform?, release?_eq, perform]
  | load program =>
    cases loaded : m.load program <;> simp [perform?, perform, load?_eq, loaded]
  | loadRom file =>
    cases loaded : m.loadRom file <;> simp [perform?, perform, loadRom?_eq, loaded]
  | reset => simp [perform?, reset?_eq h.program_le, perform]
  | _ => rfl

theorem performAll?_eq (h : m.InRange) (os : List Operation) :
    m.performAll? os = some (m.answers os, m.after os) := by
  induction os generalizing m with
  | nil => rfl
  | cons o os ih =>
    have rest := ih (inRange_perform m o h)
    simp [performAll?, perform?_eq o h, rest, answers]

/-- Whatever is done to a new machine, its numbers stay in range, no sum overflows and no place is
missed on the way, and none in the colours of the picture it is left with. -/
theorem performAll?_new (d : Dialect) (w : WordStream) (os : List Operation) :
    ((new d w).after os).InRange ∧
      (do (← new? d w).performAll? os) = some ((new d w).answers os, (new d w).after os) ∧
      ((new d w).after os).state.frame.cells.texture? =
        some ((new d w).after os).state.frame.texture := by
  refine ⟨inRange_after d w os, ?_, Frame.texture?_cells _⟩
  rw [new?_eq]
  exact performAll?_eq (inRange_new d w) os

end Machine
end Chip8
