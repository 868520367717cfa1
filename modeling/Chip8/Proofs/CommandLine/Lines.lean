import Chip8.CommandLine.Parse

/-!
# Writing command lines

Settings can be written in many ways. A line is made of pieces, in any order: the path, options with
a number, options alone, clusters of letters. A piece is a choice of spelling, and its arguments are
what is typed for it. `Writes` says what the pieces of a line ask for.
-/

namespace Chip8.CommandLine

/-- A number with what may stand in front of its digits. -/
structure Numeral where
  plus : Bool
  zeros : Nat
  value : Nat

namespace Numeral

def digits (n : Numeral) : List Char := List.replicate n.zeros '0' ++ Nat.toDigits 10 n.value

def text (n : Numeral) : String := String.ofList (if n.plus then '+' :: n.digits else n.digits)

end Numeral

namespace Parameter

def name : Parameter → String
  | scale => "scale"
  | rate => "ips"
  | seed => "seed"

/-- The letter of an option that has one. -/
def letter? : Parameter → Option Char
  | scale => some 's'
  | rate => some 'i'
  | seed => none

def least : Parameter → Nat
  | scale | rate => 1
  | seed => 0

def most : Parameter → Nat
  | scale => 64
  | rate => 4294967295
  | seed => 18446744073709551615

end Parameter

/-- The options that change the dialect. -/
inductive Choice
  | shiftsY | advancesIndex | clips
  deriving DecidableEq

namespace Choice

def name : Choice → String
  | shiftsY => "shift-vy"
  | advancesIndex => "increment-i"
  | clips => "clip"

/-- Whether a dialect is one for which the option is given. -/
def made : Choice → Dialect → Bool
  | shiftsY, d => d.shiftsY
  | advancesIndex, d => d.advancesIndex
  | clips, d => d.clips

end Choice

/-- How a number follows the letter of its option. -/
inductive Attachment
  | apart | equals | joint

def Attachment.join : Attachment → String → String → List String
  | apart, option, number => [option, number]
  | equals, option, number => [option ++ "=" ++ number]
  | joint, option, number => [option ++ number]

/-- A part of a line that has a meaning of its own. -/
inductive Piece
  | path (text : String)
  | long (p : Parameter) (equals : Bool) (n : Numeral)
  /-- An option with a number, behind letters that ask for more records. -/
  | short (more : Nat) (p : Parameter) (c : Char) (named : p.letter? = some c)
    (follows : Attachment) (n : Numeral)
  | choice (c : Choice)
  /-- A cluster of letters that ask for more records, one of them and `others`. -/
  | verbose (others : Nat)
  | verboseLong

namespace Piece

/-- What is typed for a piece. -/
def arguments : Piece → List String
  | path text => [text]
  | long p false n => ["--" ++ p.name, n.text]
  | long p true n => ["--" ++ p.name ++ "=" ++ n.text]
  | short more _ c _ follows n =>
    follows.join ("-" ++ String.ofList (List.replicate more 'v' ++ [c])) n.text
  | choice c => ["--" ++ c.name]
  | verbose others => ["-" ++ String.ofList (List.replicate (others + 1) 'v')]
  | verboseLong => ["--verbose"]

def path? : Piece → Option String
  | path text => some text
  | _ => none

def value? (p : Parameter) : Piece → Option Nat
  | long q _ n | short _ q _ _ _ n => if q = p then some n.value else none
  | _ => none

def chooses (c : Choice) : Piece → Bool
  | choice d => d = c
  | _ => false

/-- How often a piece asks for more records. -/
def more : Piece → Nat
  | short more .. => more
  | verbose others => others + 1
  | verboseLong => 1
  | _ => 0

end Piece

section Line
variable (pieces : List Piece)

def paths : List String := pieces.filterMap Piece.path?

def values (p : Parameter) : List Nat := pieces.filterMap (Piece.value? p)

def choices (c : Choice) : Nat := pieces.countP (Piece.chooses c)

def verbosity : Nat := pieces.foldr (fun x n => x.more + n) 0

/-- The option has this value: it is given, or left out and this is its usual value. -/
def Gives (p : Parameter) (usual n : Nat) : Prop :=
  values pieces p = [n] ∨ values pieces p = [] ∧ n = usual

/-- A path that is not taken for an option. -/
def IsPath (text : String) : Prop := text ≠ "" ∧ text.toList.head? ≠ some '-'

/-- The line asks for this. No option is given twice, but for the one that asks for more records. -/
structure Writes (r : Request) : Prop where
  path : paths pieces = [r.settings.path]
  named : IsPath r.settings.path
  scale : Gives pieces .scale 10 r.settings.scale
  scale_bounds : 1 ≤ r.settings.scale ∧ r.settings.scale ≤ 64
  rate : Gives pieces .rate 700 r.settings.rate
  rate_bounds : 1 ≤ r.settings.rate ∧ r.settings.rate ≤ 4294967295
  seed : values pieces .seed = (r.settings.seed.map UInt64.toNat).toList
  choices : ∀ c, choices pieces c = (c.made r.settings.dialect).toNat
  verbosity : verbosity pieces = r.verbosity

end Line
end Chip8.CommandLine
