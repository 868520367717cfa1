import Chip8.Machine.Burst
import Chip8.Session.Console

/-!
# Passes

The sixtieth part of a second. A pass handles the events that have come, moves the machine on or
back, follows the tone, and shows the picture if there is a new one. Going on runs a number of steps
and counts the timers down once; going back leaves the timers as they were saved.
-/

namespace Chip8.Session.Console

def keyDown (code : Keycode) (k : Console) : Except Stop Console :=
  match Keyboard.key? code with
  | some key => .ok (k.operate (.press key.val.toUInt8))
  | none => match Keyboard.control? code with
    | some .rewind => .ok { k with rewinding := true }
    | some .reset => .ok (k.operate .reset)
    | some .quit => .error k.closed
    | some .fastForward | none => .ok k

def keyUp (code : Keycode) (k : Console) : Console :=
  match Keyboard.key? code with
  | some key => k.operate (.release key.val.toUInt8)
  | none => match Keyboard.control? code with
    | some .rewind => { k with rewinding := false }
    | some .reset | some .quit | some .fastForward | none => k

def handle (k : Console) (e : Event) : Except Stop Console :=
  match e with
  | .down code false => k.keyDown code
  | .up code => .ok (k.keyUp code)
  | .quit => .error k.closed
  | .down _ true | .other => .ok k

/-- Handles events until one ends the session. -/
def handleAll (events : List Event) (k : Console) : Except Stop Console :=
  events.foldlM handle k

def forward (steps : Nat) (k : Console) : Except Stop Console :=
  let burst := k.machine.burst steps
  let moved := { k.recordAll burst.notices with machine := burst.machine }
  match burst.stop with
  | some (.faulted f) => moved.fail (.machine f)
  | _ => .ok (moved.operate .tick)

def backward (steps : Nat) (k : Console) : Console :=
  { k with machine := (k.machine.rewindUpTo steps).2 }

def move (steps : Nat) (k : Console) : Except Stop Console :=
  if k.rewinding then .ok (k.backward steps) else k.forward steps

def followTone (k : Console) : Console :=
  if k.machine.sounding = k.sounding then k
  else { k.record (.notice (.tone k.machine.sounding)) with sounding := k.machine.sounding }

def run (steps : Nat) (outage : Outage) (k : Console) (events : List Event) :
    Except Stop Console := do
  let k ← { k with pass := k.pass + 1 }.handleAll events
  let k ← k.move steps
  k.followTone.present outage

def runAll (steps : Nat) (outage : Outage) (passes : List (List Event)) (k : Console) :
    Except Stop Console :=
  passes.foldlM (run steps outage) k

end Chip8.Session.Console
