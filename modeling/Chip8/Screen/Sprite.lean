import Chip8.Screen.Frame

/-!
# Sprites

A sprite is a column of bytes, each a row of eight pixels with the leftmost in its highest bit.
`mask` is the picture of a sprite alone on the screen, its corner in column `left` of row `top`.
-/

namespace Chip8.Sprite

/-- How far `place` lies behind `origin` on an axis of `size` places. With `clip` the axis ends at
its last place; without it the axis is closed to a ring. -/
def offset (clip : Bool) (size origin place : Nat) : Option Nat :=
  if clip then if origin ≤ place then some (place - origin) else none
  else some ((place + size - origin) % size)

def bit (row : UInt8) (c : Nat) : Bool := row.toBitVec.getMsbD c

/-- A screen row that holds only a sprite row. -/
def line (clip : Bool) (left : Nat) (row : UInt8) : BitVec 64 :=
  let word := row.toBitVec.setWidth 64 <<< 56
  if clip then word >>> left else word.rotateRight left

def mask (clip : Bool) (left top : Nat) (sprite : List UInt8) : Frame :=
  ⟨Vector.ofFn fun y => match (offset clip 32 top y).bind (sprite[·]?) with
    | some row => line clip left row
    | none => 0⟩

theorem getMsbD_line (clip : Bool) {left : Nat} (hl : left < 64) (row : UInt8) (x : Fin 64) :
    (line clip left row).getMsbD x = (offset clip 64 left x).any (bit row) := by
  have hx := x.isLt
  have word (n : Nat) : (row.toBitVec.setWidth 64 <<< 56).getMsbD n = bit row n := by
    simp only [bit, BitVec.getMsbD_shiftLeft, BitVec.getMsbD_setWidth]
    by_cases hn : n < 8
    · simp
    · simp [BitVec.getMsbD_of_ge _ n (Nat.not_lt.mp hn)]
  cases clip
  · simp only [line, offset, Bool.false_eq_true, if_false, BitVec.getMsbD_rotateRight, word, hx,
      decide_true, Bool.true_and, Option.any_some, Nat.mod_eq_of_lt hl]
    split
    · rw [Nat.add_comm]
    · congr 1; omega
  · simp only [line, offset, if_true, BitVec.getMsbD_ushiftRight, word, hx, decide_true,
      Bool.true_and]
    split
    · simp only [Option.any_some, Nat.not_lt.mpr ‹left ≤ x.val›, decide_false, Bool.not_false,
        Bool.true_and]
    · simp only [Option.any_none, Nat.lt_of_not_le ‹¬left ≤ x.val›, decide_true, Bool.not_true,
        Bool.false_and]

/-- A pixel of the mask is the bit of the sprite that lies as far below and to the right of the
sprite's corner as the pixel does; it is dark where there is none. -/
theorem pixel_mask (clip : Bool) {left : Nat} (hl : left < 64) (top : Nat) (sprite : List UInt8)
    (x : Fin 64) (y : Fin 32) :
    (mask clip left top sprite).pixel x y =
      ((offset clip 32 top y).bind (sprite[·]?)).any fun row =>
        (offset clip 64 left x).any (bit row) := by
  simp only [Frame.pixel, Frame.row, mask, Fin.getElem_fin, Vector.getElem_ofFn]
  split
  · next h => simp [h, getMsbD_line clip hl]
  · next h => simp [h]

end Chip8.Sprite
