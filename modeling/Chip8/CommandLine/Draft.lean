import Chip8.Instruction

/-!
# Half-read command lines

The options, and what is known after some arguments. The path, and the value of an option that
stands in an argument of its own, are looked at only when the next known thing comes or the line
ends: until then they are pending. So an argument that means nothing is reported before a value in
front of it that is wrong.
-/

namespace Chip8

namespace Decimal

def value (digits : List Char) : Nat :=
  digits.foldl (fun n c => 10 * n + (c.toNat - '0'.toNat)) 0

/-- The number that a text denotes: digits, with a plus sign in front of them if one likes. -/
def read? (text : List Char) : Option Nat :=
  let digits := match text with
    | '+' :: rest => rest
    | _ => text
  if digits ≠ [] ∧ digits.all Char.isDigit then some (value digits) else none

end Decimal

namespace CommandLine

inductive Parameter
  | scale | rate | seed
  deriving DecidableEq

inductive Switch
  | shiftsY | advancesIndex | clips | verbose | help | version
  deriving DecidableEq

inductive Flag
  | parameter (p : Parameter)
  | switch (s : Switch)
  deriving DecidableEq

def longNames : List (String × Flag) :=
  [("scale", .parameter .scale), ("ips", .parameter .rate), ("seed", .parameter .seed),
    ("shift-vy", .switch .shiftsY), ("increment-i", .switch .advancesIndex),
    ("clip", .switch .clips), ("verbose", .switch .verbose), ("help", .switch .help),
    ("version", .switch .version)]

def letters : List (Char × Flag) :=
  [('s', .parameter .scale), ('i', .parameter .rate), ('v', .switch .verbose),
    ('h', .switch .help), ('V', .switch .version)]

/-- The option of a long name; a name is never cut short. -/
def Flag.ofName? (name : List Char) : Option Flag := longNames.lookup (String.ofList name)

def Flag.ofLetter? (c : Char) : Option Flag := letters.lookup c

inductive Refusal
  | help
  | version
  /-- An option that there is none of, or a second path. -/
  | unknownArgument
  | missingPath
  /-- An option without its value, or an empty path. -/
  | missingValue
  | invalidValue
  | unexpectedValue
  | repeated
  deriving DecidableEq

inductive Pending
  | nothing
  | path (text : List Char)
  | parameter (p : Parameter) (value : Option (List Char))
  deriving DecidableEq

structure Draft where
  path : Option String
  scale : Option Nat
  rate : Option Nat
  seed : Option Nat
  dialect : Dialect
  /-- How often more records were asked for. -/
  verbosity : Nat
  pending : Pending
  /-- Whether options have been ruled out for the rest of the line. -/
  pathsOnly : Bool
  deriving DecidableEq

def number (least most : Nat) (text : List Char) : Except Refusal Nat :=
  match Decimal.read? text with
  | some n => if least ≤ n ∧ n ≤ most then .ok n else .error .invalidValue
  | none => .error .invalidValue

namespace Draft

def empty : Draft := ⟨none, none, none, none, .common, 0, .nothing, false⟩

def hasPath (d : Draft) : Bool :=
  d.path.isSome || match d.pending with
    | .path _ => true
    | _ => false

/-- Takes the value of an option, which must be its first. -/
def give (p : Parameter) (text : List Char) (d : Draft) : Except Refusal Draft :=
  match p with
  | .scale => if d.scale.isSome then .error .repeated else
      (number 1 64 text).map fun n => { d with scale := some n }
  | .rate => if d.rate.isSome then .error .repeated else
      (number 1 0xFFFFFFFF text).map fun n => { d with rate := some n }
  | .seed => if d.seed.isSome then .error .repeated else
      (number 0 0xFFFFFFFFFFFFFFFF text).map fun n => { d with seed := some n }

def settle (d : Draft) : Except Refusal Draft :=
  match d.pending with
  | .nothing => .ok d
  | .path [] => .error .missingValue
  | .path text => .ok { d with path := some (String.ofList text), pending := .nothing }
  | .parameter _ none => .error .missingValue
  | .parameter p (some text) => { d with pending := .nothing }.give p text

def turnOn (s : Switch) (d : Draft) : Except Refusal Draft :=
  match s with
  | .help => .error .help
  | .version => .error .version
  | .verbose => .ok { d with verbosity := d.verbosity + 1 }
  | .shiftsY => if d.dialect.shiftsY then .error .repeated else
      .ok { d with dialect := { d.dialect with shiftsY := true } }
  | .advancesIndex => if d.dialect.advancesIndex then .error .repeated else
      .ok { d with dialect := { d.dialect with advancesIndex := true } }
  | .clips => if d.dialect.clips then .error .repeated else
      .ok { d with dialect := { d.dialect with clips := true } }

def parameter (p : Parameter) (attached : Option (List Char)) (d : Draft) :
    Except Refusal Draft := do
  let d ← d.settle
  match attached with
  | some text => d.give p text
  | none => .ok { d with pending := .parameter p none }

def long (name : List Char) (attached : Option (List Char)) (d : Draft) : Except Refusal Draft :=
  match Flag.ofName? name, attached with
  | none, _ => .error .unknownArgument
  | some (.parameter p), _ => d.parameter p attached
  | some (.switch _), some _ => .error .unexpectedValue
  | some (.switch s), none => do (← d.settle).turnOn s

/-- Reads a cluster of letters, of which the first with a value takes what is left of the cluster;
an equals sign may stand between them. -/
def cluster : List Char → Draft → Except Refusal Draft
  | [], d => .ok d
  | c :: rest, d => match Flag.ofLetter? c with
    | none => .error .unknownArgument
    | some (.switch s) => do cluster rest (← (← d.settle).turnOn s)
    | some (.parameter p) => match rest with
      | [] => d.parameter p none
      | '=' :: text => d.parameter p (some text)
      | text => d.parameter p (some text)

def readPath (text : List Char) (d : Draft) : Except Refusal Draft :=
  if d.hasPath then .error .unknownArgument
  else do pure { ← d.settle with pending := .path text }

def plain (text : List Char) (d : Draft) : Except Refusal Draft :=
  match d.pending with
  | .parameter p none => .ok { d with pending := .parameter p (some text) }
  | _ => d.readPath text

end Draft
end CommandLine
end Chip8
