import Chip8.Instruction.Decode
import Chip8.Instruction.Mnemonic

/-!
# What the log can hold

Every record that the machine or a session leaves, as a value; its text is made only when it is
shown. A level shows itself and what is more severe.
-/

namespace Chip8

/-- How much a record matters, the most severe first. -/
inductive Level
  | warn | info | debug | trace
  deriving DecidableEq

namespace Level

def name : Level → String
  | warn => "WARN"
  | info => "INFO"
  | debug => "DEBUG"
  | trace => "TRACE"

def rank : Level → Nat
  | warn => 0
  | info => 1
  | debug => 2
  | trace => 3

def shownAt (limit level : Level) : Bool := level.rank ≤ limit.rank

end Level

inductive Notice
  | loadedNothing
  | loaded (size : Nat)
  | reset
  | unknownPress (k : UInt8)
  | unknownRelease (k : UInt8)
  | resumed (key : Nibble) (x : Reg)
  /-- A word is about to be carried out, with these registers and this index. -/
  | traced (pc : UInt16) (op : Opcode) (v : Registers) (i : UInt16)
  | skipped (op : Opcode) (pc : UInt16)
  | waiting (x : Reg)
  | loadedFile (path : String) (size : Nat)
  | opened (scale : Nat)
  | tone (on : Bool)
  | closed
  deriving DecidableEq

namespace Notice

def level : Notice → Level
  | loadedNothing | unknownPress _ | unknownRelease _ => .warn
  | loaded _ | loadedFile .. | closed => .info
  | reset | resumed .. | skipped .. | waiting _ | opened _ | tone _ => .debug
  | traced .. => .trace

def hex (width n : Nat) : String := String.ofList (Hex.padded width n)

def text : Notice → String
  | loadedNothing => "loaded an empty program"
  | loaded size => "loaded " ++ toString size ++ " byte program"
  | reset => "machine reset"
  | unknownPress k => "ignoring press of unknown key 0x" ++ hex 1 k.toNat
  | unknownRelease k => "ignoring release of unknown key 0x" ++ hex 1 k.toNat
  | resumed key x => "key " ++ hex 1 key ++ " resumes wait on V" ++ hex 1 x
  | traced pc op v i =>
    hex 3 pc.toNat ++ ": " ++ hex 4 op.toNat ++ " " ++ (Instruction.decode op).text ++ " v[" ++
      ", ".intercalate (v.toList.map fun b => hex 2 b.toNat) ++ "] i" ++ hex 3 i.toNat
  | skipped op pc => "skipping unsupported opcode " ++ hex 4 op.toNat ++ " at " ++ hex 3 pc.toNat
  | waiting x => "waiting for a key press into V" ++ hex 1 x
  | loadedFile path size => "loaded " ++ path ++ " (" ++ toString size ++ " bytes)"
  | opened scale => "opened " ++ toString scale ++ "x scaled window"
  | tone on => if on then "tone on" else "tone off"
  | closed => "window closed"

def line (n : Notice) : String := n.level.name ++ " " ++ n.text

end Notice
end Chip8
