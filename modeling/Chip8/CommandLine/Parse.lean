import Chip8.CommandLine.Draft
import Chip8.Session.Play

/-!
# Reading command lines

Arguments are read from the left, and the first that is wrong decides what the line is refused for.
An argument is known by its looks: two dashes alone, a long name with a value behind an equals sign
or none, a cluster of letters, or anything else, such as a dash alone.
-/

namespace Chip8.CommandLine

inductive Word
  | dashes
  | long (name : List Char) (attached : Option (List Char))
  | cluster (letters : List Char)
  | plain (text : List Char)
  deriving DecidableEq

def attachedValue (text : List Char) : Option (List Char) :=
  match text.dropWhile (· != '=') with
  | [] => none
  | _ :: value => some value

def Word.ofChars : List Char → Word
  | ['-', '-'] => dashes
  | '-' :: '-' :: rest => long (rest.takeWhile (· != '=')) (attachedValue rest)
  | '-' :: c :: rest => cluster (c :: rest)
  | text => plain text

structure Request where
  settings : Settings
  verbosity : Nat
  deriving DecidableEq

def Request.logLevel (r : Request) : Level :=
  match r.verbosity with
  | 0 => .warn
  | 1 => .info
  | 2 => .debug
  | _ => .trace

namespace Draft

def read (d : Draft) (argument : String) : Except Refusal Draft :=
  if d.pathsOnly then d.readPath argument.toList
  else match Word.ofChars argument.toList with
    | .dashes => .ok { d with pathsOnly := true }
    | .long name attached => d.long name attached
    | .cluster letters => d.cluster letters
    | .plain text => d.plain text

def finish (d : Draft) : Except Refusal Request := do
  let d ← d.settle
  match d.path with
  | none => .error .missingPath
  | some path =>
    pure { settings := { path, dialect := d.dialect,
                         scale := d.scale.getD Settings.usualScale
                         rate := d.rate.getD Settings.usualRate
                         seed := d.seed.map Nat.toUInt64 },
           verbosity := d.verbosity }

end Draft

def parse (arguments : List String) : Except Refusal Request := do
  (← arguments.foldlM Draft.read .empty).finish

/-- Whether a refusal is an answer that was asked for. -/
def Refusal.wanted : Refusal → Bool
  | help | version => true
  | _ => false

def usage : String :=
  "Runs a Chip-8 ROM\n\n" ++
  "Usage: vip8 [OPTIONS] <ROM>\n\n" ++
  "Arguments:\n" ++
  "  <ROM>  Path to the ROM file to run\n\n" ++
  "Options:\n" ++
  "  -s, --scale <SCALE>  Window pixels per Chip-8 pixel [default: 10]\n" ++
  "  -i, --ips <IPS>      Instructions executed per second [default: 700]\n" ++
  "      --shift-vy       8XY6/8XYE shift VY into VX\n" ++
  "      --increment-i    FX55/FX65 advance I past the registers transferred\n" ++
  "      --clip           Clip sprites at the screen edge instead of wrapping them\n" ++
  "      --seed <SEED>    Seed for the random number generator\n" ++
  "  -v, --verbose...     Raise the log level (-v info, -vv debug, -vvv trace)\n" ++
  "  -h, --help           Print help\n" ++
  "  -V, --version        Print version"

def Refusal.message : Refusal → String
  | help => usage
  | version => "vip8-run 0.1.0"
  | unknownArgument => "error: unexpected argument found"
  | missingPath => "error: one or more required arguments were not provided"
  | missingValue => "error: one of the values isn't valid for an argument"
  | invalidValue => "error: invalid value for one of the arguments"
  | unexpectedValue => "error: unexpected value for an argument found"
  | repeated =>
    "error: an argument cannot be used with one or more of the other specified arguments"

end Chip8.CommandLine
