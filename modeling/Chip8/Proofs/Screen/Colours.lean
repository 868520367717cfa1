import Chip8.Proofs.Guarded.Machine

/-!
# The colours of a picture

A raster has colours just where none of its bytes is more than one, and then the three bytes of a
pixel stand where its row and its column say. So the picture of a machine in any run has colours, and
they tell it from every other picture.
-/

namespace Chip8

/-- Among blocks of one length, an element is found by its block and its place in there. -/
theorem getElem?_flatMap_of_length {α β : Type} {f : α → List β} {n j : Nat}
    (length : ∀ a, (f a).length = n) (inside : j < n) (l : List α) (i : Nat) :
    (l.flatMap f)[n * i + j]? = l[i]?.bind fun a => (f a)[j]? := by
  induction l generalizing i with
  | nil => rfl
  | cons a l ih =>
    rw [List.flatMap_cons]
    cases i with
    | zero =>
      have first : n * 0 + j < (f a).length := by rw [length]; omega
      rw [List.getElem?_append_left first, Nat.mul_zero, Nat.zero_add]
      rfl
    | succ i =>
      have later : n * (i + 1) + j = (f a).length + (n * i + j) := by
        rw [length, Nat.mul_succ]
        omega
      rw [later, List.getElem?_append_right (Nat.le_add_right ..), Nat.add_sub_cancel_left]
      exact ih i

namespace Raster

def byte (r : Raster) (x : Fin 64) (y : Fin 32) : UInt8 := (r.get y).get x

/-- The bytes row after row. -/
def bytes (r : Raster) : List UInt8 := r.toList.flatMap Vector.toList

theorem getElem?_bytes (r : Raster) (x : Fin 64) (y : Fin 32) :
    r.bytes[64 * y.val + x.val]? = some (r.byte x y) := by
  have rows (line : Vector UInt8 64) : line.toList.length = 64 := line.length_toList
  rw [bytes, getElem?_flatMap_of_length rows x.isLt]
  change r.toList[y.val]?.bind (fun line => line.toList[x.val]?) = _
  simp only [Vector.getElem?_toList]
  simp [byte, Vector.get]
  rfl

theorem forall_mem_bytes {r : Raster} {p : UInt8 → Prop} :
    (∀ b ∈ r.bytes, p b) ↔ ∀ x y, p (r.byte x y) := by
  constructor
  · intro all x y
    exact all _ (List.mem_of_getElem? (r.getElem?_bytes x y))
  · intro all b inside
    obtain ⟨line, inRaster, inLine⟩ := List.mem_flatMap.mp inside
    obtain ⟨y, hy, rfl⟩ := Vector.getElem_of_mem (Vector.mem_toList_iff.mp inRaster)
    obtain ⟨x, hx, rfl⟩ := Vector.getElem_of_mem (Vector.mem_toList_iff.mp inLine)
    exact all ⟨x, hx⟩ ⟨y, hy⟩

/-- The three colour bytes of each byte. -/
def colours (r : Raster) : List UInt8 := r.bytes.flatMap fun b => [b * 255, b * 255, b * 255]

theorem getElem?_colours (r : Raster) (x : Fin 64) (y : Fin 32) (c : Fin 3) :
    r.colours[3 * (64 * y.val + x.val) + c.val]? = some (r.byte x y * 255) := by
  have three (b : UInt8) : [b * 255, b * 255, b * 255].length = 3 := rfl
  rw [colours, getElem?_flatMap_of_length three c.isLt, getElem?_bytes]
  exact List.getElem?_replicate_of_lt c.isLt

theorem texture?_eq_some_iff {r : Raster} {colours : List UInt8} :
    r.texture? = some colours ↔ (∀ x y, r.byte x y ≤ 1) ∧ colours = r.colours := by
  have shades : r.texture? = (r.bytes.mapM (product8? · 255)).map
    (·.flatMap fun shade => [shade, shade, shade]) := rfl
  rw [shades, Option.map_eq_some_iff]
  simp only [mapM_product8?_255_eq_some_iff, forall_mem_bytes]
  constructor
  · rintro ⟨_, ⟨low, rfl⟩, rfl⟩
    exact ⟨low, List.flatMap_map ..⟩
  · rintro ⟨low, rfl⟩
    exact ⟨_, ⟨low, rfl⟩, List.flatMap_map ..⟩

end Raster

theorem Frame.byte_cells (f : Frame) (x : Fin 64) (y : Fin 32) :
    f.cells.byte x y = f.cell x y := by
  change f.cells[y.val][x.val] = f.cell x y
  simp [cells]

namespace Machine

/-- Whatever is done to a new machine, the bytes of its picture are multiplied without an overflow,
and each of the three colour bytes of a pixel stands in its place, full where the pixel is lit. Two
machines show the same colours just where their pictures are the same. -/
theorem texture_of_run (d : Dialect) (w : WordStream) (os : List Operation) :
    let m := (new d w).after os
    (do (← new? d w).performAll? os) = some ((new d w).answers os, m) ∧
      m.state.frame.cells.texture? = some m.state.frame.texture ∧
      m.state.frame.texture.length = 6144 ∧
      (∀ (x : Fin 64) (y : Fin 32) (c : Fin 3),
        m.state.frame.texture[3 * (64 * y.val + x.val) + c.val]? =
          some (if m.state.frame.pixel x y then 255 else 0)) ∧
      ∀ (d' : Dialect) (w' : WordStream) (os' : List Operation),
        let m' := (new d' w').after os'
        m.state.frame.texture = m'.state.frame.texture ↔ m.state.frame = m'.state.frame := by
  intro m
  obtain ⟨low, same⟩ := Raster.texture?_eq_some_iff.mp m.state.frame.texture?_cells
  refine ⟨?_, m.state.frame.texture?_cells, Frame.length_texture _, ?_, ?_⟩
  · rw [new?_eq]
    exact performAll?_eq (inRange_new d w) os
  · intro x y c
    rw [same, Raster.getElem?_colours, Frame.byte_cells, Frame.cell]
    cases m.state.frame.pixel x y <;> rfl
  · intro d' w' os' m'
    exact ⟨Frame.texture_inj, congrArg Frame.texture⟩

end Machine
end Chip8
