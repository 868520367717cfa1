import Chip8.Proofs.Screen.Drawing

/-!
# Drawing over what is drawn

Drawing a sprite again takes it off the screen, and two sprites leave the same picture in either
order. The flags are not kept so simply, for what one sprite lights or puts out changes what the next
one meets. Still the two flags of one sprite drawn twice tell together whether any of its bits lands
on the screen, and of two sprites some flag is set in one order if some flag is in the other.
-/

namespace Chip8

namespace Frame

theorem xor_xor_cancel (f g : Frame) : (f.xor g).xor g = f :=
  ext_pixel fun x y => by simp

theorem xor_right_comm (f g h : Frame) : (f.xor g).xor h = (f.xor h).xor g :=
  ext_pixel fun x y => by simp only [pixel_xor, Bool.xor_right_comm]

/-- What a picture meets where it has been drawn already are the pixels that were dark before. -/
theorem meets_xor_self_iff (f g : Frame) :
    (f.xor g).meets g = true ↔ ∃ x y, f.pixel x y = false ∧ g.pixel x y = true := by
  rw [meets_iff]
  refine exists_congr fun x => exists_congr fun y => ?_
  rw [pixel_xor]
  cases f.pixel x y <;> cases g.pixel x y <;> decide

private theorem meets_or_of_meets_or {f g h : Frame}
    (met : (f.meets g || (f.xor g).meets h) = true) : (f.meets h || (f.xor h).meets g) = true := by
  simp only [Bool.or_eq_true, meets_iff, pixel_xor] at met ⊢
  -- the pixel that was met tells which of the two is met in the other order
  obtain ⟨x, y, hf, hg⟩ | ⟨x, y, hfg, hh⟩ := met
  · cases hh : h.pixel x y
    · exact .inr ⟨x, y, by simp [hf, hh], hg⟩
    · exact .inl ⟨x, y, hf, hh⟩
  · cases hf : f.pixel x y
    · exact .inr ⟨x, y, by simp [hf, hh], by simpa [hf] using hfg⟩
    · exact .inl ⟨x, y, hf, hh⟩

/-- Of two pictures one meets something in one order if one does in the other. -/
theorem meets_or_meets_xor_comm (f g h : Frame) :
    (f.meets g || (f.xor g).meets h) = (f.meets h || (f.xor h).meets g) :=
  Bool.eq_iff_iff.mpr ⟨meets_or_of_meets_or, meets_or_of_meets_or⟩

end Frame

theorem toUInt8_or (a b : Bool) : a.toUInt8 ||| b.toUInt8 = (a || b).toUInt8 := by
  cases a <;> cases b <;> rfl

namespace State

theorem reg_drawMask (mask : Frame) (s : State) {x : Reg} (plain : x ≠ Reg.flag) :
    (s.drawMask mask).reg x = s.reg x :=
  Cells.get_put_of_ne _ _ plain.symm

/-- Drawing does not change what a sprite looks like. -/
theorem spriteMask_drawMask (mask : Frame) (s : State) {x y : Reg} (hx : x ≠ Reg.flag)
    (hy : y ≠ Reg.flag) (clip : Bool) (height : Nibble) :
    (s.drawMask mask).spriteMask clip x y height = s.spriteMask clip x y height := by
  rw [spriteMask, spriteMask, reg_drawMask mask s hx, reg_drawMask mask s hy]
  rfl

/-- A bit of the sprite at the index that is set and lands on the screen, and the pixel it lands
on. -/
structure Lands (clip : Bool) (x y : Reg) (height : Nibble) (s : State) (r k : Nat) (px : Fin 64)
    (py : Fin 32) : Prop where
  row : r < height.val
  column : k < 8
  set : (s.memory.byte (s.i.toNat + r)).toNat.testBit (7 - k) = true
  inside : clip = true → (s.reg x).toNat % 64 + k < 64 ∧ (s.reg y).toNat % 32 + r < 32
  left : ((s.reg x).toNat % 64 + k) % 64 = px
  top : ((s.reg y).toNat % 32 + r) % 32 = py

theorem pixel_spriteMask_iff {clip : Bool} {x y : Reg} {height : Nibble} {s : State} {px : Fin 64}
    {py : Fin 32} :
    (s.spriteMask clip x y height).pixel px py = true ↔
      ∃ r k, s.Lands clip x y height r k px py := by
  rw [spriteMask, Sprite.pixel_mask_eq_true_iff clip (s.left_lt x) (s.top_lt y)
    (s.length_atIndex_le height)]
  constructor
  · rintro ⟨r, row, k, found, set, inRows, inColumns, left, top⟩
    rw [getElem?_atIndex, Option.ite_none_right_eq_some] at found
    obtain ⟨inside, byte⟩ := found
    obtain rfl := Option.some.inj byte
    rw [Sprite.bit_eq_testBit, Bool.and_eq_true, decide_eq_true_iff] at set
    exact ⟨r, k, inside, set.1, set.2, fun clips => ⟨inColumns clips, inRows clips⟩, left, top⟩
  · rintro ⟨r, k, lands⟩
    refine ⟨r, _, k, (getElem?_atIndex ..).trans (if_pos lands.row), ?_,
      fun clips => (lands.inside clips).2, fun clips => (lands.inside clips).1, lands.left,
      lands.top⟩
    rw [Sprite.bit_eq_testBit, lands.set, decide_eq_true lands.column]
    rfl

theorem exists_pixel_spriteMask_iff {clip : Bool} {x y : Reg} {height : Nibble} {s : State}
    {P : Fin 64 → Fin 32 → Prop} :
    (∃ px py, P px py ∧ (s.spriteMask clip x y height).pixel px py = true) ↔
      ∃ r k px py, s.Lands clip x y height r k px py ∧ P px py := by
  simp only [pixel_spriteMask_iff]
  constructor
  · rintro ⟨px, py, holds, r, k, lands⟩
    exact ⟨r, k, px, py, lands, holds⟩
  · rintro ⟨r, k, px, py, lands, holds⟩
    exact ⟨px, py, holds, r, k, lands⟩

theorem lands_lit_or_dark_iff {clip : Bool} {x y : Reg} {height : Nibble} {s : State} (f : Frame) :
    ((∃ r k px py, s.Lands clip x y height r k px py ∧ f.pixel px py = true) ∨
      ∃ r k px py, s.Lands clip x y height r k px py ∧ f.pixel px py = false) ↔
      ∃ r k px py, s.Lands clip x y height r k px py := by
  constructor
  · rintro (⟨r, k, px, py, lands, -⟩ | ⟨r, k, px, py, lands, -⟩) <;> exact ⟨r, k, px, py, lands⟩
  · rintro ⟨r, k, px, py, lands⟩
    cases before : f.pixel px py
    · exact .inr ⟨r, k, px, py, lands, before⟩
    · exact .inl ⟨r, k, px, py, lands, before⟩

/-- Where nothing is clipped every set bit of the sprite lands. -/
theorem exists_lands_iff_of_wraps {x y : Reg} {height : Nibble} {s : State} :
    (∃ r k px py, s.Lands false x y height r k px py) ↔
      ∃ r < height.val, s.memory.byte (s.i.toNat + r) ≠ 0 := by
  constructor
  · rintro ⟨r, k, px, py, lands⟩
    refine ⟨r, lands.row, fun blank => ?_⟩
    have set := lands.set
    rw [blank] at set
    exact absurd set (by simp)
  · rintro ⟨r, inside, full⟩
    obtain ⟨j, set⟩ := Nat.exists_testBit_of_ne_zero fun zero => full (UInt8.toNat_inj.mp zero)
    have hj : j < 8 := by
      refine Nat.lt_of_not_le fun le => ?_
      have small : (s.memory.byte (s.i.toNat + r)).toNat < 2 ^ j :=
        Nat.lt_of_lt_of_le (UInt8.toNat_lt _) (Nat.pow_le_pow_right (by decide) le)
      rw [Nat.testBit_lt_two_pow small] at set
      exact nomatch set
    refine ⟨r, 7 - j, ⟨_, Nat.mod_lt _ (by decide)⟩, ⟨_, Nat.mod_lt _ (by decide)⟩, inside, ?_, ?_,
      nofun, rfl, rfl⟩
    · omega
    · rwa [show 7 - (7 - j) = j by omega]

end State

namespace Instruction

/-- The second run of a word DXYN takes off what the first put on. Its flag tells whether a bit that
landed met a dark pixel, where the flag of the first tells whether one met a lit pixel; so one of
them is set exactly if some bit lands, which without clipping is to say that some byte is not
blank. -/
theorem draw_draw (d : Dialect) (w w' : WordStream) (s : State) {x y : Reg} (hx : x ≠ Reg.flag)
    (hy : y ≠ Reg.flag) {height : Nibble} (fits : height.val = 0 ∨ s.i.toNat + height.val ≤ 4096) :
    decode (Opcode.ofDigits 0xD x y height) = draw x y height ∧
      ∃ t u, (draw x y height).execute d w s = .ok t ∧ (draw x y height).execute d w' t = .ok u ∧
      u.frame = s.frame ∧
      (t.reg Reg.flag = 1 ↔ ∃ r k px py,
        s.Lands d.clips x y height r k px py ∧ s.frame.pixel px py = true) ∧
      (u.reg Reg.flag = 1 ↔ ∃ r k px py,
        s.Lands d.clips x y height r k px py ∧ s.frame.pixel px py = false) ∧
      (t.reg Reg.flag = 1 ∨ u.reg Reg.flag = 1 ↔ ∃ r k px py,
        s.Lands d.clips x y height r k px py) ∧
      (d.clips = false → (t.reg Reg.flag = 1 ∨ u.reg Reg.flag = 1 ↔
        ∃ r < height.val, s.memory.byte (s.i.toNat + r) ≠ 0)) := by
  let mask := s.spriteMask d.clips x y height
  let t := s.next.drawMask mask
  let u := t.next.drawMask mask
  have again : t.spriteMask d.clips x y height = mask :=
    State.spriteMask_drawMask mask s.next hx hy d.clips height
  have fits' : height.val = 0 ∨ t.i.toNat + height.val ≤ 4096 := fits
  have drawn : (draw x y height).execute d w' t = .ok u := by
    rw [execute_draw fits' d w' x y, again]
  have first : t.reg Reg.flag = 1 ↔ ∃ r k px py,
      s.Lands d.clips x y height r k px py ∧ s.frame.pixel px py = true := by
    rw [State.reg_flag_drawMask, toUInt8_eq_one_iff, Frame.meets_iff]
    exact State.exists_pixel_spriteMask_iff
  have second : u.reg Reg.flag = 1 ↔ ∃ r k px py,
      s.Lands d.clips x y height r k px py ∧ s.frame.pixel px py = false := by
    rw [State.reg_flag_drawMask, toUInt8_eq_one_iff]
    exact (Frame.meets_xor_self_iff s.frame mask).trans State.exists_pixel_spriteMask_iff
  have either : t.reg Reg.flag = 1 ∨ u.reg Reg.flag = 1 ↔ ∃ r k px py,
      s.Lands d.clips x y height r k px py := by
    rw [first, second, State.lands_lit_or_dark_iff]
  refine ⟨decode_draw x y height, t, u, execute_draw fits d w x y, drawn,
    Frame.xor_xor_cancel s.frame mask, first, second, either, fun wraps => ?_⟩
  rw [wraps] at either
  exact either.trans State.exists_lands_iff_of_wraps

/-- The digit 0 is drawn over the last corner of the screen, which clips it, and one pixel there is
lit. -/
def cornerLit : State :=
  { State.powerOn with v := (State.powerOn.v.put (Nibble.ofNat 0) 62).put (Nibble.ofNat 1) 30
                       frame := Sprite.mask true 62 30 [0x80] }

/-- The first drawing meets that pixel, the second the one next to it. -/
theorem draw_draw_cornerLit :
    let five := decode 0xD015
    let clipping : Dialect := ⟨false, false, true⟩
    Nibble.ofNat 0 ≠ Reg.flag ∧ Nibble.ofNat 1 ≠ Reg.flag ∧
      (5 = 0 ∨ cornerLit.i.toNat + 5 ≤ 4096) ∧ ∃ t u,
      five.execute clipping (.ofList []) cornerLit = .ok t ∧
      five.execute clipping (.ofList []) t = .ok u ∧
      u.frame = cornerLit.frame ∧ t.reg Reg.flag = 1 ∧ u.reg Reg.flag = 1 := by
  intro five clipping
  have ⟨hx, hy, fits⟩ : Nibble.ofNat 0 ≠ Reg.flag ∧ Nibble.ofNat 1 ≠ Reg.flag ∧
      ((Nibble.ofNat 5).val = 0 ∨ cornerLit.i.toNat + (Nibble.ofNat 5).val ≤ 4096) := by
    decide
  obtain ⟨-, t, u, once, twice, back, first, second, -⟩ :=
    draw_draw clipping (.ofList []) (.ofList []) cornerLit hx hy fits
  have ⟨set, lit, set', dark⟩ :
      (cornerLit.memory.byte (cornerLit.i.toNat + 0)).toNat.testBit 7 = true ∧
      cornerLit.frame.pixel 62 30 = true ∧
      (cornerLit.memory.byte (cornerLit.i.toNat + 0)).toNat.testBit 6 = true ∧
      cornerLit.frame.pixel 63 30 = false := by
    decide +kernel
  have corner : cornerLit.Lands true (Nibble.ofNat 0) (Nibble.ofNat 1) (Nibble.ofNat 5) 0 0 62 30 :=
    ⟨by decide, by decide, set, fun _ => ⟨by decide, by decide⟩, rfl, rfl⟩
  have beside : cornerLit.Lands true (Nibble.ofNat 0) (Nibble.ofNat 1) (Nibble.ofNat 5) 0 1 63 30 :=
    ⟨by decide, by decide, set', fun _ => ⟨by decide, by decide⟩, rfl, rfl⟩
  exact ⟨hx, hy, fits, t, u, once, twice, back, first.mpr ⟨0, 0, 62, 30, corner, lit⟩,
    second.mpr ⟨0, 1, 63, 30, beside, dark⟩⟩

end Instruction

/-- A sprite as two instructions draw it, the first of which sets the index. It lies in memory, and
its coordinates are not in the flag register, which drawing overwrites. -/
structure Stamp where
  address : Address
  x : Reg
  y : Reg
  height : Nibble
  inside : address.val + height.val ≤ 4096
  x_plain : x ≠ Reg.flag
  y_plain : y ≠ Reg.flag

namespace Stamp

variable (d : Dialect) (w : WordStream) (p q : Stamp) (s : State)

def draw : Except Fault State :=
  (Instruction.setIndex p.address).execute d w s >>= (Instruction.draw p.x p.y p.height).execute d w

/-- The state with the index at the sprite. -/
def placed : State := { s.next with i := p.address.val.toUInt16 }

def mask : Frame := (p.placed s).spriteMask d.clips p.x p.y p.height

def drawn : State := (p.placed s).next.drawMask (p.mask d s)

theorem draw_eq : p.draw d w s = .ok (p.drawn d s) := by
  have address : (p.placed s).i.toNat = p.address.val :=
    Nat.mod_eq_of_lt (Nat.lt_trans p.address.isLt (by decide))
  have fits : p.height.val = 0 ∨ (p.placed s).i.toNat + p.height.val ≤ 4096 :=
    .inr (address ▸ p.inside)
  exact Instruction.execute_draw fits d w p.x p.y

theorem frame_drawn : (p.drawn d s).frame = s.frame.xor (p.mask d s) := rfl

theorem reg_flag_drawn : (p.drawn d s).reg Reg.flag = (s.frame.meets (p.mask d s)).toUInt8 :=
  State.reg_flag_drawMask ..

theorem mask_drawn : q.mask d (p.drawn d s) = q.mask d s :=
  State.spriteMask_drawMask (p.mask d s) (q.placed (p.placed s).next) q.x_plain q.y_plain d.clips
    q.height

/-- Two sprites, each drawn by the words ANNN and DXYN, leave the same picture in either order, and
some flag is set in one order if some flag is in the other. Which of the two sets it may depend on
the order. -/
theorem draws_commute :
    (∀ p : Stamp,
      Instruction.decode (0xA000 + p.address.val).toUInt16 = .setIndex p.address ∧
      Instruction.decode (Opcode.ofDigits 0xD p.x p.y p.height) = .draw p.x p.y p.height) ∧
    (∀ (d : Dialect) (w : WordStream) (s : State) (p q : Stamp), ∃ sp spq sq sqp,
      p.draw d w s = .ok sp ∧ q.draw d w sp = .ok spq ∧
      q.draw d w s = .ok sq ∧ p.draw d w sq = .ok sqp ∧
      sqp.frame = spq.frame ∧
      (sq.reg Reg.flag ||| sqp.reg Reg.flag) = (sp.reg Reg.flag ||| spq.reg Reg.flag)) ∧
    ∃ (d : Dialect) (w : WordStream) (s : State) (p q : Stamp) (sp spq sq sqp : State),
      p.draw d w s = .ok sp ∧ q.draw d w sp = .ok spq ∧
      q.draw d w s = .ok sq ∧ p.draw d w sq = .ok sqp ∧
      sp.reg Reg.flag ≠ sqp.reg Reg.flag ∧ spq.reg Reg.flag ≠ sq.reg Reg.flag := by
  refine ⟨fun p => ⟨Instruction.decode_setIndex .., Instruction.decode_draw ..⟩, ?_, ?_⟩
  · intro d w s p q
    refine ⟨_, _, _, _, draw_eq d w p s, draw_eq d w q _, draw_eq d w q s, draw_eq d w p _, ?_, ?_⟩
    · rw [frame_drawn, frame_drawn, frame_drawn, frame_drawn, mask_drawn, mask_drawn,
        Frame.xor_right_comm]
    · rw [reg_flag_drawn, reg_flag_drawn, reg_flag_drawn, reg_flag_drawn, frame_drawn, frame_drawn,
        mask_drawn, mask_drawn, toUInt8_or, toUInt8_or, Frame.meets_or_meets_xor_comm]
  · -- two digits that overlap, on a blank screen: whichever comes second meets the other
    let zero : Stamp := ⟨⟨0, by decide⟩, Nibble.ofNat 0, Nibble.ofNat 1, Nibble.ofNat 5, by decide,
      by decide, by decide⟩
    let one : Stamp := { zero with address := ⟨5, by decide⟩, inside := by decide }
    refine ⟨Dialect.common, .ofList [], State.powerOn, zero, one, _, _, _, _, draw_eq .., draw_eq ..,
      draw_eq .., draw_eq .., ?_⟩
    decide +kernel

end Stamp
end Chip8
