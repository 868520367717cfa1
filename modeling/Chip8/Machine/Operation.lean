import Chip8.Machine.Step
import Chip8.Notice

/-!
# Operations

Everything that can be done to a machine, as a value, so that a history of a machine is a list of
operations; and what each leaves in the log, read off the machine before it.
-/

namespace Chip8

inductive Operation
  | step
  | tick
  | rewind
  | press (k : UInt8)
  | release (k : UInt8)
  | load (program : List UInt8)
  | loadRom (file : Reader)
  | reset
  | takeFrame
  | clearRedraw
  | setDialect (d : Dialect)
  | setRandom (w : WordStream)

inductive Answer
  | done
  | stepped (o : Outcome)
  /-- Whether there was a state to go back to. -/
  | rewound (back : Bool)
  | frame (f : Option Frame)
  | loaded (size : Nat)
  | refused (e : RomError)
  deriving DecidableEq

namespace Machine

/-- Does one thing to a machine. A refused program leaves the machine alone. -/
def perform (o : Operation) (m : Machine) : Answer × Machine :=
  match o with
  | .step => let (outcome, m) := m.step; (.stepped outcome, m)
  | .tick => (.done, m.tick)
  | .rewind => match m.rewind? with
    | some back => (.rewound true, back)
    | none => (.rewound false, m)
  | .press k => (.done, m.press k)
  | .release k => (.done, m.release k)
  | .load program => match m.load program with
    | .ok m => (.loaded program.length, m)
    | .error e => (.refused e, m)
  | .loadRom file => match m.loadRom file with
    | .ok (size, m) => (.loaded size, m)
    | .error e => (.refused e, m)
  | .reset => (.done, m.reset)
  | .takeFrame => (.frame m.pendingFrame?, m.clearRedraw)
  | .clearRedraw => (.done, m.clearRedraw)
  | .setDialect d => (.done, { m with dialect := d })
  | .setRandom w => (.done, { m with random := w })

def runNotices (pc : UInt16) : Instruction → List Notice
  | .unsupported op => [.skipped op pc]
  | .awaitKey x => [.waiting x]
  | _ => []

/-- A step records the word it fetched, also if carrying it out faults. -/
def stepNotices (m : Machine) : List Notice :=
  match m.state.awaiting, m.state.fetch with
  | none, .ok op =>
    .traced m.state.pc op m.state.v m.state.i ::
      match m.upcoming with
      | .ok i => runNotices m.state.pc i
      | .error _ => []
  | _, _ => []

def pressNotices (k : UInt8) (m : Machine) : List Notice :=
  match key? k with
  | none => [.unknownPress k]
  | some key => match m.state.awaiting with
    | some x => if m.state.keypad.get key then [] else [.resumed key x]
    | none => []

def releaseNotices (k : UInt8) : List Notice :=
  match key? k with
  | none => [.unknownRelease k]
  | some _ => []

def loadNotices (program : List UInt8) : List Notice :=
  (if program = [] then [.loadedNothing] else []) ++
    if program.length ≤ romLimit then [.loaded program.length] else []

def loadRomNotices (file : Reader) : List Notice :=
  match file.readUpTo (romLimit + 1) with
  | .error _ => []
  | .ok program => loadNotices program

def notices (o : Operation) (m : Machine) : List Notice :=
  match o with
  | .step => m.stepNotices
  | .press k => m.pressNotices k
  | .release k => releaseNotices k
  | .load program => loadNotices program
  | .loadRom file => loadRomNotices file
  | .reset => [.reset]
  | .tick | .rewind | .takeFrame | .clearRedraw | .setDialect _ | .setRandom _ => []

def after (os : List Operation) (m : Machine) : Machine :=
  os.foldl (fun m o => (m.perform o).2) m

def answers : List Operation → Machine → List Answer
  | [], _ => []
  | o :: rest, m => (m.perform o).1 :: (m.perform o).2.answers rest

@[simp]
theorem after_nil (m : Machine) : m.after [] = m := rfl

@[simp]
theorem after_cons (o : Operation) (os : List Operation) (m : Machine) :
    m.after (o :: os) = (m.perform o).2.after os := rfl

@[simp]
theorem after_append (os os' : List Operation) (m : Machine) :
    m.after (os ++ os') = (m.after os).after os' := by
  simp [after]

end Machine
end Chip8
