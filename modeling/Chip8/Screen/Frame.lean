/-!
# The picture

A frame is 32 rows of 64 pixels. A row is one word whose most significant bit is the leftmost
pixel, so that combining two pictures is a bitwise operation on rows. `pixel` is the view through
which frames are compared: two frames with the same pixels are equal.
-/

namespace Chip8

structure Frame where
  rows : Vector (BitVec 64) 32
  deriving DecidableEq

namespace Frame

def width : Nat := 64

def height : Nat := 32

def blank : Frame := ⟨Vector.replicate 32 0⟩

def row (f : Frame) (y : Fin 32) : BitVec 64 := f.rows[y]

/-- Whether the pixel in column `x` of row `y` is lit. -/
def pixel (f : Frame) (x : Fin 64) (y : Fin 32) : Bool := (f.row y).getMsbD x

def xor (f g : Frame) : Frame := ⟨Vector.zipWith (· ^^^ ·) f.rows g.rows⟩

def inter (f g : Frame) : Frame := ⟨Vector.zipWith (· &&& ·) f.rows g.rows⟩

def meets (f g : Frame) : Bool := decide (f.inter g ≠ blank)

@[simp]
theorem pixel_blank (x : Fin 64) (y : Fin 32) : blank.pixel x y = false := by
  simp [pixel, row, blank]

@[simp]
theorem pixel_xor (f g : Frame) (x : Fin 64) (y : Fin 32) :
    (f.xor g).pixel x y = (f.pixel x y ^^ g.pixel x y) := by
  simp [pixel, row, xor]

@[simp]
theorem pixel_inter (f g : Frame) (x : Fin 64) (y : Fin 32) :
    (f.inter g).pixel x y = (f.pixel x y && g.pixel x y) := by
  simp [pixel, row, inter]

theorem ext_pixel {f g : Frame} (h : ∀ x y, f.pixel x y = g.pixel x y) : f = g := by
  obtain ⟨f⟩ := f
  obtain ⟨g⟩ := g
  congr
  refine Vector.ext fun y hy => BitVec.eq_of_getMsbD_eq fun x hx => ?_
  simpa [pixel, row] using h ⟨x, hx⟩ ⟨y, hy⟩

theorem meets_iff (f g : Frame) :
    f.meets g = true ↔ ∃ x y, f.pixel x y = true ∧ g.pixel x y = true := by
  rw [meets, decide_eq_true_iff]
  constructor
  · intro h
    refine Classical.byContradiction fun none => h (ext_pixel fun x y => ?_)
    rw [pixel_inter, pixel_blank]
    refine Bool.eq_false_iff.mpr fun lit => none ⟨x, y, ?_⟩
    simpa using lit
  · rintro ⟨x, y, hf, hg⟩ h
    have := congrArg (fun p => p.pixel x y) h
    simp [hf, hg] at this

def colour (lit : Bool) : List UInt8 :=
  let shade := if lit then 255 else 0
  [shade, shade, shade]

/-- The bytes of red, green and blue that a display gets for each pixel, row after row. -/
def texture (f : Frame) : List UInt8 :=
  (List.finRange height).flatMap fun y =>
    (List.finRange width).flatMap fun x => colour (f.pixel x y)

@[simp]
theorem length_colour (lit : Bool) : (colour lit).length = 3 := rfl

@[simp]
theorem length_texture (f : Frame) : f.texture.length = 6144 := by
  simp [texture, List.length_flatMap, height, width, List.map_const']

end Frame
end Chip8
