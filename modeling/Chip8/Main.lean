import Chip8.CommandLine.Parse

/-!
# The program

Runs a session without a window: the events are read from standard input, a pass to a line, the
pictures are written to standard output, and the log goes to standard error.
-/

namespace Chip8

namespace Session

/-- The event that a word stands for: `+113` for a key that goes down, `*113` for a repeat of it,
`-113` for one that goes up, and `quit`. -/
def Event.ofWord (word : List Char) : Event :=
  let key (digits : List Char) (event : Keycode → Event) : Event :=
    ((Decimal.read? digits).map event).getD other
  match word with
  | '+' :: digits => key digits fun code => down code false
  | '*' :: digits => key digits fun code => down code true
  | '-' :: digits => key digits up
  | ['q', 'u', 'i', 't'] => quit
  | _ => other

def Event.ofLine (line : String) : List Event :=
  ((line.toList.splitOnP Char.isWhitespace).filter (· ≠ [])).map ofWord

end Session

/-- The failure that the system reports as an error, with the system's own number and text. -/
def IoError.ofSystem : IO.Error → IoError
  | .noFileOrDirectory .. => .notFound
  | .inappropriateType _ code _ => if code = 20 then .notADirectory else .isADirectory
  | .unexpectedEof => .unexpectedEnd
  | .userError text => .other text
  | .alreadyExists _ code text | .interrupted _ code text | .invalidArgument _ code text
  | .permissionDenied _ code text | .resourceExhausted _ code text | .noSuchThing _ code text
  | .otherError code text | .resourceBusy code text | .resourceVanished code text
  | .unsupportedOperation code text | .hardwareFault code text | .unsatisfiedConstraints code text
  | .illegalOperation code text | .protocolError code text | .timeExpired code text =>
    .other (text ++ " (os error " ++ toString code ++ ")")

namespace Main

/-- Reads pieces of a file until it ends or fails, or there are more than enough bytes. -/
partial def readPieces (handle : IO.FS.Handle) (pieces : Array (List UInt8)) (size : Nat) :
    IO Reader := do
  if romLimit < size then pure ⟨pieces.toList, none⟩
  else match ← (handle.read 4096).toBaseIO with
    | .error e => pure ⟨pieces.toList, some (.ofSystem e)⟩
    | .ok piece =>
      if piece.isEmpty then pure ⟨pieces.toList, none⟩
      else readPieces handle (pieces.push piece.toList) (size + piece.size)

def openFile (path : String) : IO (Except IoError Reader) := do
  match ← (IO.FS.Handle.mk path .read).toBaseIO with
  | .error e => pure (.error (.ofSystem e))
  | .ok handle => .ok <$> readPieces handle #[] 0

def unseeded : IO WordStream := do
  let bytes ← IO.getRandomBytes 8
  pure (.seeded (bytes.toList.foldl (fun s b => s * 256 + b.toUInt64) 0))

partial def readPasses (input : IO.FS.Stream) (passes : Array (List Session.Event)) :
    IO (List (List Session.Event)) := do
  let line ← input.getLine
  if line.isEmpty then pure passes.toList
  else readPasses input (passes.push (Session.Event.ofLine line))

def picture (f : Frame) : String :=
  "\n".intercalate <| (List.finRange Frame.height).map fun y =>
    String.ofList ((List.finRange Frame.width).map fun x => if f.pixel x y then '#' else '.')

def print (limit : Level) : Session.Entry → IO Unit
  | .notice n => if limit.shownAt n.level then IO.eprintln n.line else pure ()
  | .window width height =>
    IO.println (Session.title ++ " " ++ toString width ++ "x" ++ toString height)
  | .picture pass f => IO.println ("pass " ++ toString pass ++ "\n" ++ picture f)

def run (request : CommandLine.Request) : IO UInt32 := do
  let file ← openFile request.settings.path
  let passes ← readPasses (← IO.getStdin) #[]
  let report := Session.play request.settings (← unseeded) file .none passes
  report.transcript.forM (print request.logLevel)
  match report.failure with
  | none => pure 0
  | some f =>
    IO.eprintln ("ERROR " ++ f.message)
    pure 1

end Main
end Chip8

/-- The entry point: the exit code is zero if all went well, one if the session failed, and two if
the command line was refused. -/
def main (arguments : List String) : IO UInt32 := do
  match Chip8.CommandLine.parse arguments with
  | .ok request => Chip8.Main.run request
  | .error refusal =>
    if refusal.wanted then
      IO.println refusal.message
      pure 0
    else
      IO.eprintln refusal.message
      pure 2
