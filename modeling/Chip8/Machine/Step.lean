import Chip8.Instruction.Decode
import Chip8.Instruction.Effect
import Chip8.Machine

/-!
# Steps

A step fetches the word at the program counter and carries it out. While a register waits for a key
nothing happens, and a fault changes nothing: only a step that runs an instruction saves the state
before it and can take from the source of chance.
-/

namespace Chip8

/-- The word at the program counter, which must have both of its bytes in memory. -/
def State.fetch (s : State) : Except Fault Opcode :=
  if s.pc.toNat + 1 < Memory.size then .ok (s.memory.word s.pc.toNat)
  else .error (.outOfRange s.pc (s.pc.toNat + 1))

inductive Outcome
  | executed (i : Instruction)
  | unsupported (op : Opcode)
  | awaiting (x : Reg)
  | faulted (f : Fault)
  deriving DecidableEq

namespace Outcome

def ran : Instruction → Outcome
  | .unsupported op => unsupported op
  | i => executed i

def moved : Outcome → Bool
  | executed _ | unsupported _ => true
  | awaiting _ | faulted _ => false

@[simp]
theorem moved_ran (i : Instruction) : (ran i).moved = true := by cases i <;> rfl

end Outcome

namespace Machine

/-- The instruction that the next step runs; or else what comes of that step. -/
def upcoming (m : Machine) : Except Outcome Instruction :=
  match m.state.awaiting with
  | some x => .error (.awaiting x)
  | none => match m.state.fetch with
    | .error f => .error (.faulted f)
    | .ok op => match (Instruction.decode op).fault? m.state with
      | some f => .error (.faulted f)
      | none => .ok (Instruction.decode op)

def run (i : Instruction) (m : Machine) : Machine :=
  { m with state := i.apply m.dialect m.random m.state
           history := m.history.push m.state
           random := m.random.advance i.draws }

@[simp]
theorem saved_run (i : Instruction) (m : Machine) :
    (m.run i).saved = (m.state :: m.saved).take savedLimit := History.entries_push ..

def step (m : Machine) : Outcome × Machine :=
  match m.upcoming with
  | .error o => (o, m)
  | .ok i => (Outcome.ran i, m.run i)

end Machine
end Chip8
