import Chip8.Instruction.Effect
import Chip8.Proofs.Instruction.Words
import Chip8.Proofs.Screen.Plot

/-!
# Drawing, pixel by pixel

Each pixel of the screen is combined with one bit of the sprite, or with none: the bit that lies as
far below and to the right of the sprite's corner as the pixel does, where distances are measured
round the edges of the screen unless the dialect clips. The flag tells whether a set bit met a lit
pixel. The same comes of drawing the sprite dot by dot into the raster.
-/

namespace Chip8

namespace Sprite

/-- How far `place` lies behind `origin` on an axis of `size` places: round its ends, or, with
`clip`, not, so that places before the origin are at a negative distance. -/
def distance (clip : Bool) (size origin place : Nat) : Int :=
  if clip then (place : Int) - origin else ((place : Int) - origin) % size

theorem offset_eq_distance (clip : Bool) {size origin : Nat} (ho : origin < size) (place : Nat) :
    offset clip size origin place =
      if 0 ≤ distance clip size origin place then some (distance clip size origin place).toNat
      else none := by
  cases clip
  · have round : ((place : Int) - origin) % size = ((place + size - origin) % size : Nat) := by
      rw [Int.natCast_emod, Int.natCast_sub (by omega), Int.natCast_add, Int.sub_eq_add_neg,
        Int.sub_eq_add_neg, Int.add_right_comm, Int.add_emod_right]
    simp only [offset, distance, Bool.false_eq_true, if_false, round, Int.natCast_nonneg, if_true,
      Int.toNat_natCast]
  · have behind : 0 ≤ (place : Int) - origin ↔ origin ≤ place := by omega
    have apart : ((place : Int) - origin).toNat = place - origin := by omega
    simp only [offset, distance, if_true, behind, apart]

theorem bit_eq_testBit (row : UInt8) (k : Nat) :
    bit row k = (decide (k < 8) && row.toNat.testBit (7 - k)) := rfl

end Sprite

namespace State

/-- The sprite at the index, laid over the screen where two registers say. -/
def spriteMask (clip : Bool) (x y : Reg) (height : Nibble) (s : State) : Frame :=
  Sprite.mask clip ((s.reg x).toNat % 64) ((s.reg y).toNat % 32) (s.atIndex height)

/-- The bit of the sprite at the index that falls on a pixel of the screen; there is none where the
pixel lies before the sprite or behind its last row or column. -/
def spriteBit (clip : Bool) (x y : Reg) (height : Nibble) (s : State) (px : Fin 64) (py : Fin 32) :
    Bool :=
  let column := Sprite.distance clip 64 ((s.reg x).toNat % 64) px
  let row := Sprite.distance clip 32 ((s.reg y).toNat % 32) py
  0 ≤ row && row < height.val && 0 ≤ column && column < 8 &&
    (s.memory.byte (s.i.toNat + row.toNat)).toNat.testBit (7 - column.toNat)

theorem pixel_spriteMask (clip : Bool) (x y : Reg) (height : Nibble) (s : State) (px : Fin 64)
    (py : Fin 32) :
    (s.spriteMask clip x y height).pixel px py = s.spriteBit clip x y height px py := by
  rw [spriteMask, Sprite.pixel_mask clip (s.left_lt x), Sprite.offset_eq_distance clip (s.left_lt x),
    Sprite.offset_eq_distance clip (s.top_lt y), spriteBit]
  generalize Sprite.distance clip 64 _ _ = column
  generalize Sprite.distance clip 32 _ _ = row
  by_cases below : 0 ≤ row
  · by_cases behind : 0 ≤ column
    · have rows : row.toNat < height.val ↔ row < height.val := by omega
      have columns : column.toNat < 8 ↔ column < 8 := by omega
      simp only [below, behind, if_true, Option.bind_some, getElem?_atIndex, rows,
        Sprite.bit_eq_testBit, columns, Option.any_some, decide_true, Bool.true_and, Bool.and_true]
      split <;> simp [*]
    · simp [behind]
  · simp [below]

theorem frame_drawMask (mask : Frame) (s : State) : (s.drawMask mask).frame = s.frame.xor mask := rfl

theorem reg_flag_drawMask (mask : Frame) (s : State) :
    (s.drawMask mask).reg Reg.flag = (s.frame.meets mask).toUInt8 :=
  Cells.get_put_self ..

end State

theorem Instruction.execute_draw {height : Nibble} {s : State}
    (fits : height.val = 0 ∨ s.i.toNat + height.val ≤ 4096) (d : Dialect) (w : WordStream)
    (x y : Reg) :
    (draw x y height).execute d w s = .ok (s.next.drawMask (s.spriteMask d.clips x y height)) := by
  have sound : (draw x y height).fault? s = none := if_pos fits
  rw [execute, sound]
  rfl

theorem toUInt8_eq_one_iff {b : Bool} : b.toUInt8 = 1 ↔ b = true := by
  cases b <;> decide

theorem toUInt8_eq_zero_iff {b : Bool} : b.toUInt8 = 0 ↔ ¬b = true := by
  cases b <;> decide

/-- The word DXYN changes each pixel by the bit of the sprite that falls on it, and the flag tells
whether one that is set fell on a lit pixel; apart from the program counter, the flag and the mark to
draw nothing else changes. Going over the sprite dot by dot, and breaking off at the edges where it
is clipped, leaves these pixels and this flag. -/
theorem Instruction.draw_pixel_exact (d : Dialect) (w : WordStream) (s : State) (x y : Reg)
    {height : Nibble} (fits : height.val = 0 ∨ s.i.toNat + height.val ≤ 4096) :
    let falls := s.spriteBit d.clips x y height
    let dots := Sprite.dots d.clips ((s.reg x).toNat % 64) ((s.reg y).toNat % 32) (s.atIndex height)
    decode (Opcode.ofDigits 0xD x y height) = draw x y height ∧
      ∃ t, (draw x y height).execute d w s = .ok t ∧
      (∀ px py, t.frame.pixel px py = (s.frame.pixel px py ^^ falls px py)) ∧
      (t.reg Reg.flag = 1 ↔ ∃ px py, falls px py = true ∧ s.frame.pixel px py = true) ∧
      (t.reg Reg.flag = 0 ↔ ¬∃ px py, falls px py = true ∧ s.frame.pixel px py = true) ∧
      t = { s with pc := s.pc + 2, v := s.v.put Reg.flag (t.reg Reg.flag), frame := t.frame
                   redraw := true } ∧
      dots.foldlM Canvas.plot? ⟨s.frame.cells, 0⟩ = some ⟨t.frame.cells, t.reg Reg.flag⟩ := by
  intro falls dots
  have met : s.frame.meets (s.spriteMask d.clips x y height) = true ↔
      ∃ px py, falls px py = true ∧ s.frame.pixel px py = true := by
    simp only [Frame.meets_iff, State.pixel_spriteMask, and_comm, falls]
  have drawn := Canvas.foldlM_plot?_dots d.clips (s.left_lt x) (s.top_lt y)
    (s.length_atIndex_le height) s.frame
  have flag : (s.next.drawMask (s.spriteMask d.clips x y height)).reg Reg.flag =
      (s.frame.meets (s.spriteMask d.clips x y height)).toUInt8 := State.reg_flag_drawMask ..
  refine ⟨decode_draw x y height, _, execute_draw fits d w x y, fun px py => ?_, ?_, ?_, ?_, ?_⟩
  · rw [State.frame_drawMask, Frame.pixel_xor, State.pixel_spriteMask]
    rfl
  · rw [flag, toUInt8_eq_one_iff, met]
  · rw [flag, toUInt8_eq_zero_iff, met]
  · rw [flag]
    rfl
  · rw [flag]
    exact drawn

/-- The digit 0 is at the index, both coordinates are in the flag register, and the first pixels of
the screen are lit. -/
def State.cornered : State :=
  { powerOn with v := powerOn.v.put Reg.flag 62, frame := Sprite.mask false 0 0 [0xF0] }

/-- The digit goes round both edges and puts out a lit pixel behind the corner. -/
theorem Instruction.draw_pixel_exact_cornered :
    (5 = 0 ∨ State.cornered.i.toNat + 5 ≤ 4096) ∧
      ∃ t, (decode 0xDFF5).execute Dialect.common (.ofList []) State.cornered = .ok t ∧
        (∀ px py, px.val = 62 → py.val = 30 → t.frame.pixel px py = true) ∧
        (∀ px py, px.val = 1 → py.val = 0 → t.frame.pixel px py = false) ∧
        t.reg Reg.flag = 1 := by
  have fits : (Nibble.ofNat 5).val = 0 ∨ State.cornered.i.toNat + (Nibble.ofNat 5).val ≤ 4096 := by
    decide
  obtain ⟨-, t, drawn, pixels, hit, -⟩ :=
    draw_pixel_exact Dialect.common (.ofList []) State.cornered Reg.flag Reg.flag fits
  have ⟨dark, set, lit, meets⟩ :
      State.cornered.frame.pixel 62 30 = false ∧
      State.cornered.spriteBit Dialect.common.clips Reg.flag Reg.flag (Nibble.ofNat 5) 62 30 =
        true ∧
      State.cornered.frame.pixel 1 0 = true ∧
      State.cornered.spriteBit Dialect.common.clips Reg.flag Reg.flag (Nibble.ofNat 5) 1 0 =
        true := by
    decide +kernel
  refine ⟨fits, t, drawn, fun px py hx hy => ?_, fun px py hx hy => ?_,
    hit.mpr ⟨1, 0, meets, lit⟩⟩
  · obtain ⟨rfl, rfl⟩ : px = 62 ∧ py = 30 := ⟨Fin.ext hx, Fin.ext hy⟩
    rw [pixels, dark, set]
    rfl
  · obtain ⟨rfl, rfl⟩ : px = 1 ∧ py = 0 := ⟨Fin.ext hx, Fin.ext hy⟩
    rw [pixels, lit, meets]
    rfl

end Chip8
