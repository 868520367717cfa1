import Chip8.Screen.Frame
import Mathlib.Data.List.FinRange

/-!
# The picture as a block of bytes

A raster holds a byte for each pixel, row after row, and a byte can hold more than the two values of
a pixel. Reading a raster as a picture, or turning its bytes into colours, has a result only where
every byte is zero or one; a raster made from a picture always has.
-/

namespace Chip8

abbrev Raster := Vector (Vector UInt8 64) 32

namespace Frame

def ofPixels (lit : Fin 64 → Fin 32 → Bool) : Frame :=
  ⟨Vector.ofFn fun y => (BitVec.ofBoolListBE (List.ofFn fun x => lit x y)).setWidth 64⟩

@[simp]
theorem pixel_ofPixels (lit : Fin 64 → Fin 32 → Bool) (x : Fin 64) (y : Fin 32) :
    (ofPixels lit).pixel x y = lit x y := by
  have inside := x.isLt
  simp only [ofPixels, pixel, row, Fin.getElem_fin, Vector.getElem_ofFn, BitVec.getMsbD_setWidth,
    BitVec.getMsbD_ofBoolListBE, List.length_ofFn, List.getD_eq_getElem?_getD, List.getElem?_ofFn]
  simp [inside]

def cell (f : Frame) (x : Fin 64) (y : Fin 32) : UInt8 := (f.pixel x y).toUInt8

def cells (f : Frame) : Raster := Vector.ofFn fun y => Vector.ofFn fun x => f.cell x y

theorem cell_le_one (f : Frame) (x : Fin 64) (y : Fin 32) : f.cell x y = 0 ∨ f.cell x y = 1 := by
  unfold cell
  cases f.pixel x y
  · exact .inl rfl
  · exact .inr rfl

/-- The picture that a raster holds, if each of its bytes stands for a pixel. -/
def ofCells? (r : Raster) : Option Frame :=
  if r.all fun row => row.all (· ≤ 1) then some (ofPixels fun x y => (r.get y).get x == 1) else none

theorem ofCells?_cells (f : Frame) : ofCells? f.cells = some f := by
  have single : f.cells.all (fun row => row.all (· ≤ 1)) = true := by
    simp only [Vector.all_eq_true, cells, Vector.getElem_ofFn, decide_eq_true_eq]
    intro y hy x hx
    rcases f.cell_le_one ⟨x, hx⟩ ⟨y, hy⟩ with dark | lit
    · rw [dark]
      decide
    · rw [lit]
      decide
  have bits (x : Fin 64) (y : Fin 32) : (f.cells.get y).get x = f.cell x y := by
    change f.cells[y.val][x.val] = f.cell x y
    simp [cells]
  rw [ofCells?, if_pos single]
  refine congrArg some (ext_pixel fun x y => ?_)
  rw [pixel_ofPixels, bits, cell]
  cases f.pixel x y <;> rfl

end Frame

def product8? (a b : UInt8) : Option UInt8 :=
  if a.toNat * b.toNat < 0x100 then some (a * b) else none

theorem product8?_255_eq_some_iff {b shade : UInt8} :
    product8? b 255 = some shade ↔ b ≤ 1 ∧ shade = b * 255 := by
  have small : b.toNat * (255 : UInt8).toNat < 0x100 ↔ b ≤ 1 := by
    have full : (255 : UInt8).toNat = 255 := rfl
    have one : (1 : UInt8).toNat = 1 := rfl
    rw [UInt8.le_iff_toNat_le, full, one]
    omega
  unfold product8?
  split
  · next fits => simp [small.mp fits, eq_comm]
  · next large =>
    have high := mt small.mpr large
    simp [high]

theorem mapM_product8?_255_eq_some_iff {bytes shades : List UInt8} :
    bytes.mapM (product8? · 255) = some shades ↔
      (∀ b ∈ bytes, b ≤ 1) ∧ shades = bytes.map (· * 255) := by
  induction bytes generalizing shades with
  | nil => simp [eq_comm]
  | cons b bytes ih =>
    simp only [List.mapM_cons, Option.bind_eq_bind, Option.bind_eq_some_iff, ih,
      product8?_255_eq_some_iff, List.forall_mem_cons, List.map_cons]
    constructor
    · rintro ⟨_, ⟨low, rfl⟩, _, ⟨lows, rfl⟩, all⟩
      exact ⟨⟨low, lows⟩, (Option.some.inj all).symm⟩
    · rintro ⟨⟨low, lows⟩, rfl⟩
      exact ⟨_, ⟨low, rfl⟩, _, ⟨lows, rfl⟩, rfl⟩

/-- The colour bytes of a raster: each byte times 255, for red, green and blue. -/
def Raster.texture? (r : Raster) : Option (List UInt8) :=
  ((r.toList.flatMap Vector.toList).mapM (product8? · 255)).map
    (·.flatMap fun shade => [shade, shade, shade])

/-- No product overflows in the colours of a picture. -/
theorem Frame.texture?_cells (f : Frame) : f.cells.texture? = some f.texture := by
  have low : ∀ cell ∈ f.cells.toList.flatMap Vector.toList, cell ≤ 1 := by
    intro cell inside
    obtain ⟨line, inRaster, inLine⟩ := List.mem_flatMap.mp inside
    obtain ⟨y, rfl⟩ : ∃ y, (Vector.ofFn fun x => f.cell x y) = line := by
      simpa [Frame.cells] using inRaster
    obtain ⟨x, rfl⟩ : ∃ x, f.cell x y = cell := by simpa using inLine
    rcases f.cell_le_one x y with h | h <;> rw [h] <;> decide
  have colours (y : Fin 32) (x : Fin 64) :
      [f.cell x y * 255, f.cell x y * 255, f.cell x y * 255] = Frame.colour (f.pixel x y) := by
    unfold Frame.cell
    cases f.pixel x y <;> rfl
  rw [Raster.texture?, mapM_product8?_255_eq_some_iff.mpr ⟨low, rfl⟩]
  simp only [Option.map_some, List.flatMap_map, Frame.cells, Vector.toList_ofFn, List.ofFn_eq_map,
    List.flatMap_assoc, colours, Frame.texture, Frame.height, Frame.width]

private theorem flatMap_inj {α β : Type} {f g : α → List β} {l : List α}
    (length : ∀ a, (f a).length = (g a).length) (h : l.flatMap f = l.flatMap g) :
    ∀ a ∈ l, f a = g a := by
  induction l with
  | nil => exact nofun
  | cons a l ih =>
    rw [List.flatMap_cons, List.flatMap_cons] at h
    obtain ⟨head, tail⟩ := List.append_inj h (length a)
    intro b inside
    rcases List.mem_cons.mp inside with rfl | inside
    · exact head
    · exact ih tail b inside

private theorem colour_inj {a b : Bool} (h : Frame.colour a = Frame.colour b) : a = b := by
  revert a b
  decide

private def Frame.shades (f : Frame) (y : Fin 32) : List UInt8 :=
  (List.finRange 64).flatMap fun x => colour (f.pixel x y)

/-- Different pictures have different colours. -/
theorem Frame.texture_inj {f g : Frame} (h : f.texture = g.texture) : f = g := by
  have rows : ∀ y ∈ List.finRange 32, f.shades y = g.shades y := by
    refine flatMap_inj (fun y => ?_) h
    simp [shades, List.length_flatMap]
  refine ext_pixel fun x y => ?_
  have pixels : ∀ x ∈ List.finRange 64, colour (f.pixel x y) = colour (g.pixel x y) :=
    flatMap_inj (fun _ => rfl) (rows y (List.mem_finRange y))
  exact colour_inj (pixels x (List.mem_finRange x))

end Chip8
