import Chip8.Nibble

/-!
# Sources of chance

An endless sequence of words and how many of them have been taken; nothing ever puts a word back. A
seed determines such a sequence by the blocks of the ChaCha stream cipher with twelve rounds, for a
key that the seed expands to and consecutive counters.
-/

namespace Chip8
namespace ChaCha

/-- Sixteen words: four constants, a key of eight, a counter of two, and two zeros. -/
abbrev Block := Cells UInt32

def rotate (n w : UInt32) : UInt32 := w <<< n ||| w >>> (32 - n)

/-- Adds word `b` to word `a` and mixes the sum into word `c`. -/
def stir (a b c : Nibble) (n : UInt32) (s : Block) : Block :=
  let sum := s.get a + s.get b
  (s.put a sum).put c (rotate n (s.get c ^^^ sum))

def quarterRound (a b c d : Nat) (s : Block) : Block :=
  let (a, b, c, d) := (Nibble.ofNat a, Nibble.ofNat b, Nibble.ofNat c, Nibble.ofNat d)
  stir c d b 7 (stir a b d 8 (stir c d b 12 (stir a b d 16 s)))

/-- A round over the columns of the block seen as a square, and one over its diagonals. -/
def doubleRound (s : Block) : Block :=
  let columns := quarterRound 3 7 11 15 <| quarterRound 2 6 10 14 <|
    quarterRound 1 5 9 13 <| quarterRound 0 4 8 12 s
  quarterRound 3 4 9 14 <| quarterRound 2 7 8 13 <|
    quarterRound 1 6 11 12 <| quarterRound 0 5 10 15 columns

def start (key : Vector UInt32 8) (counter : Nat) : Block :=
  #v[0x61707865, 0x3320646e, 0x79622d32, 0x6b206574,
    key[0], key[1], key[2], key[3], key[4], key[5], key[6], key[7],
    counter.toUInt32, (counter / 0x100000000).toUInt32, 0, 0]

/-- The block for a key and a counter: twelve rounds over the start, added to it. -/
def block (key : Vector UInt32 8) (counter : Nat) : Block :=
  let first := start key counter
  Vector.zipWith (· + ·) (Nat.repeat doubleRound 6 first) first

/-- The next state of the generator that a seed is expanded with. -/
def expandStep (s : UInt64) : UInt64 := s * 6364136223846793005 + 11634580027462260723

/-- The word that such a state gives: its upper half folded, and turned by its five highest bits. -/
def expandWord (s : UInt64) : UInt32 :=
  let folded := (((s >>> 18) ^^^ s) >>> 27).toUInt32
  let turn := (s >>> 59).toUInt32
  folded >>> turn ||| folded <<< (32 - turn)

def expandSeed (seed : UInt64) : Vector UInt32 8 :=
  Vector.ofFn fun k => expandWord (Nat.repeat expandStep (k + 1) seed)

end ChaCha

/-- A fixed sequence of words, read from `position` on. -/
structure WordStream where
  word : Nat → UInt32
  position : Nat

namespace WordStream

def seeded (seed : UInt64) : WordStream :=
  let key := ChaCha.expandSeed seed
  ⟨fun n => (ChaCha.block key (n / 16)).get (Nibble.ofNat n), 0⟩

/-- The given words, and zeros behind them. -/
def ofList (words : List UInt32) : WordStream :=
  let cells := words.toArray
  ⟨fun n => cells[n]?.getD 0, 0⟩

def byte (w : WordStream) : UInt8 := (w.word w.position).toUInt8

def advance (n : Nat) (w : WordStream) : WordStream := { w with position := w.position + n }

@[simp]
theorem advance_zero (w : WordStream) : w.advance 0 = w := rfl

@[simp]
theorem advance_advance (n k : Nat) (w : WordStream) :
    (w.advance n).advance k = w.advance (n + k) :=
  congrArg (WordStream.mk w.word) (Nat.add_assoc ..)

end WordStream
end Chip8
