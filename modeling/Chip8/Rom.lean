/-!
# Program files

How opening or reading a file fails, and why a program is refused. A reader hands out a file in
pieces, one for each read, and then ends or fails. `readUpTo` asks for pieces until a limit is
reached and asks for none after that, so a failure behind the limit is never seen. Files lie in a
folder without folders of its own, and a path is walked name by name. Leaving the folder leads to
folders in which no name is known; `..` leads from any folder to one that encloses it. The limits of
paths and names are in bytes.
-/

namespace Chip8

inductive IoError
  | notFound
  | notADirectory
  | isADirectory
  | nameTooLong
  | nulInName
  | unexpectedEnd
  /-- A refusal that is no answer of the system, which would come with a number. -/
  | permissionDenied
  /-- A failure with a text of its own. -/
  | other (text : String)
  deriving DecidableEq

def IoError.message : IoError → String
  | notFound => "No such file or directory (os error 2)"
  | notADirectory => "Not a directory (os error 20)"
  | isADirectory => "Is a directory (os error 21)"
  | nameTooLong => "File name too long (os error 36)"
  | nulInName => "file name contained an unexpected NUL byte"
  | unexpectedEnd => "unexpected end of file"
  | permissionDenied => "permission denied"
  | other text => text

/-- The largest program that fits between its start and the end of memory. -/
def romLimit : Nat := 3584

inductive RomError
  | io (cause : IoError)
  | tooLarge (size : Nat)
  deriving DecidableEq

def RomError.message : RomError → String
  | io cause => "unable to read ROM: " ++ cause.message
  | tooLarge size =>
    "ROM is " ++ toString size ++ " bytes; at most " ++ toString romLimit ++ " fit in memory"

structure Reader where
  pieces : List (List UInt8)
  /-- How the pieces end: with the end of the file, or with a failure. -/
  failure : Option IoError
  deriving DecidableEq

namespace Reader

def ofBytes (bytes : List UInt8) : Reader := ⟨[bytes], none⟩

def failing (e : IoError) : Reader := ⟨[], some e⟩

/-- Reads from the given pieces until `limit` bytes have come. A read that gives no byte is the end
of the file. -/
def gather (failure : Option IoError) : Nat → List (List UInt8) → Except IoError (List UInt8)
  | 0, _ => .ok []
  | _ + 1, [] => match failure with
    | some e => .error e
    | none => .ok []
  | _ + 1, [] :: _ => .ok []
  | limit + 1, piece :: rest =>
    (gather failure (limit + 1 - piece.length) rest).map (piece.take (limit + 1) ++ ·)

def readUpTo (limit : Nat) (r : Reader) : Except IoError (List UInt8) :=
  gather r.failure limit r.pieces

end Reader

abbrev Folder := List (String × List UInt8)

namespace Folder

def pathLimit : Nat := 4095

def nameLimit : Nat := 255

inductive Place
  | here
  | outside
  | file (bytes : List UInt8)
  deriving DecidableEq

/-- Goes on from a place by one name; an empty name stays. -/
def enter (folder : Folder) (place : Place) (name : String) : Except IoError Place :=
  match place with
  | .file _ => .error .notADirectory
  | .here | .outside =>
    if name = "" ∨ name = "." then .ok place
    else if name = ".." then .ok .outside
    else if nameLimit < name.utf8ByteSize then .error .nameTooLong
    else match place, folder.lookup name with
      | .here, some bytes => .ok (.file bytes)
      | _, _ => .error .notFound

def walk (folder : Folder) (path : String) : Except IoError Place :=
  let start := if path.startsWith "/" then Place.outside else Place.here
  (path.splitOn "/").foldlM folder.enter start

def openFile (folder : Folder) (path : String) : Except IoError Reader :=
  if path.contains '\x00' then .error .nulInName
  else if path = "" then .error .notFound
  else if pathLimit < path.utf8ByteSize then .error .nameTooLong
  else match folder.walk path with
    | .error e => .error e
    | .ok (.file bytes) => .ok (.ofBytes bytes)
    | .ok .here | .ok .outside => .ok (.failing .isADirectory)

end Folder
end Chip8
