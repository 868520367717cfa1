import Chip8.Keyboard
import Chip8.Machine.Operation

/-!
# The console

What the keyboard and the window report, what a session asks of the display, and the console between
them: a machine with two switches, the number of passes begun, the calls made to the display, and the
transcript of all that could be seen from outside. Everything a session does leads from a console to
a console or to a stop.
-/

namespace Chip8.Session

inductive Event
  /-- A key went down; `again` marks the repeats of a key that is held. -/
  | down (code : Keycode) (again : Bool)
  | up (code : Keycode)
  | quit
  /-- Anything else, such as a motion of the mouse. -/
  | other
  deriving DecidableEq

inductive DisplayCall
  | init | video | window | renderer | events | texture | update | copy
  deriving DecidableEq

/-- Which calls fail, by the number of the call among those of its kind, counted from one; and what
each of them reports. -/
abbrev Outage := DisplayCall → Nat → Option String

namespace Outage

def none : Outage := fun _ _ => Option.none

/-- The outage of one use of one call. -/
def single (call : DisplayCall) (n : Nat) (text : String) : Outage := fun c k =>
  if c = call ∧ k = n then some text else Option.none

end Outage

inductive Failure
  | unopened (path : String) (cause : IoError)
  | unloaded (path : String) (cause : RomError)
  | machine (fault : Fault)
  | display (text : String)
  /-- The window would be wider than any can be. -/
  | oversized (width : Nat)
  deriving DecidableEq

def Failure.message : Failure → String
  | unopened path cause => "unable to open " ++ path ++ ": " ++ cause.message
  | unloaded path cause => "unable to load " ++ path ++ ": " ++ cause.message
  | machine fault => "machine fault: " ++ fault.message
  | display text => "SDL error: " ++ text
  | oversized width => "SDL error: Window width (" ++ toString width ++ ") is too high."

inductive Entry
  | notice (n : Notice)
  | window (width height : Nat)
  /-- A picture was shown in a pass; pass zero is the start. -/
  | picture (pass : Nat) (frame : Frame)
  deriving DecidableEq

structure Console where
  machine : Machine
  rewinding : Bool
  sounding : Bool
  pass : Nat
  /-- The calls made to the display, the newest first. -/
  calls : List DisplayCall
  transcript : List Entry

structure Stop where
  /-- What it ended with; nothing if its window was closed. -/
  failure : Option Failure
  console : Console

namespace Console

def start (machine : Machine) (notices : List Notice) : Console :=
  ⟨machine, false, false, 0, [], (notices.map Entry.notice).reverse⟩

def record (e : Entry) (k : Console) : Console := { k with transcript := e :: k.transcript }

/-- Adds records of the log to the transcript, the oldest first. -/
def recordAll (notices : List Notice) (k : Console) : Console :=
  { k with transcript := (notices.map Entry.notice).reverse ++ k.transcript }

def operate (o : Operation) (k : Console) : Console :=
  { k.recordAll (k.machine.notices o) with machine := (k.machine.perform o).2 }

def fail (f : Failure) (k : Console) : Except Stop Console := .error ⟨some f, k⟩

def closed (k : Console) : Stop := ⟨none, k.record (.notice .closed)⟩

def call (outage : Outage) (c : DisplayCall) (k : Console) : Except Stop Console :=
  let made := { k with calls := c :: k.calls }
  match outage c (made.calls.count c) with
  | some text => made.fail (.display text)
  | none => .ok made

def render (outage : Outage) (f : Frame) (k : Console) : Except Stop Console := do
  let k ← k.call outage .texture
  let k ← k.call outage .update
  let k ← k.call outage .copy
  pure (k.record (.picture k.pass f))

def present (outage : Outage) (k : Console) : Except Stop Console :=
  match k.machine.pendingFrame? with
  | none => .ok k
  | some f => (k.operate .takeFrame).render outage f

end Console
end Chip8.Session
