import Chip8.Session.Pass

/-!
# Sessions

What a session is started with, and the session from start to end: the program is loaded, the window
is opened with a dark picture in it, and passes follow until the window is closed or something fails.
When the events of all passes are used up, the window is closed.
-/

namespace Chip8

structure Settings where
  path : String
  /-- The width of a pixel in the window. -/
  scale : Nat
  /-- Instructions a second. -/
  rate : Nat
  dialect : Dialect
  seed : Option UInt64
  deriving DecidableEq

namespace Settings

def passRate : Nat := 60

def usualScale : Nat := 10

def usualRate : Nat := 700

/-- The steps between two counts of the timers: at least one. -/
def stepsPerPass (s : Settings) : Nat := max 1 (s.rate / passRate)

def random (s : Settings) (unseeded : WordStream) : WordStream :=
  match s.seed with
  | some seed => .seeded seed
  | none => unseeded

end Settings

namespace Session

/-- Loads the program of a session: the machine, and the records that loading leaves. The `file` is
what came of opening the path in the settings. -/
def load (s : Settings) (unseeded : WordStream) (file : Except IoError Reader) :
    Except Failure (Machine × List Notice) :=
  match file with
  | .error cause => .error (.unopened s.path cause)
  | .ok file => match (Machine.new s.dialect (s.random unseeded)).loadRom file with
    | .error cause => .error (.unloaded s.path cause)
    | .ok (size, machine) =>
      .ok (machine, Machine.loadRomNotices file ++ [.loadedFile s.path size])

def widestWindow : Nat := 2147483647

def Console.makeWindow (scale : Nat) (outage : Outage) (k : Console) : Except Stop Console :=
  let width := Frame.width * scale
  if width ≤ widestWindow then
    (k.record (.window width (Frame.height * scale))).call outage .window
  else k.fail (.oversized width)

def Console.openWindow (scale : Nat) (outage : Outage) (k : Console) : Except Stop Console := do
  let k ← k.call outage .init
  let k ← k.call outage .video
  let k ← k.makeWindow scale outage
  let k ← k.call outage .renderer
  let k ← (k.record (.notice (.opened scale))).render outage Frame.blank
  k.call outage .events

def title : String := "Vip-8"

structure Report where
  failure : Option Failure
  /-- What was seen, the oldest first. -/
  transcript : List Entry
  deriving DecidableEq

namespace Report

def window (r : Report) : Option (Nat × Nat) :=
  r.transcript.findSome? fun
    | .window width height => some (width, height)
    | _ => none

/-- The pictures that were shown, with the pass that each was shown in. -/
def pictures (r : Report) : List (Nat × Frame) :=
  r.transcript.filterMap fun
    | .picture pass frame => some (pass, frame)
    | _ => none

def notices (r : Report) : List Notice :=
  r.transcript.filterMap fun
    | .notice n => some n
    | _ => none

end Report

def Stop.report (s : Stop) : Report := ⟨s.failure, s.console.transcript.reverse⟩

/-- A session with a loaded program: every session stops. -/
def Console.play (s : Settings) (outage : Outage) (passes : List (List Event)) (k : Console) :
    Stop :=
  match k.openWindow s.scale outage >>= Console.runAll s.stepsPerPass outage passes with
  | .error stop => stop
  | .ok k => k.closed

def play (s : Settings) (unseeded : WordStream) (file : Except IoError Reader) (outage : Outage)
    (passes : List (List Event)) : Report :=
  match load s unseeded file with
  | .error f => ⟨some f, []⟩
  | .ok (machine, notices) => ((Console.start machine notices).play s outage passes).report

end Session
end Chip8
