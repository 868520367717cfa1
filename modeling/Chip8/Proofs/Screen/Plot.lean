import Chip8.Proofs.Screen.Edges
import Chip8.Proofs.Screen.Raster

/-!
# Drawing dot by dot

A sprite can be drawn in place: its bits are visited row by row, each falls on a byte of the raster,
and a flag collects whether a lit bit met a lit pixel. Going round the edges or stopping at them
decides which dots there are. No two dots fall on one pixel, so the whole walk amounts to combining
the screen with the mask of the sprite, and every byte it leaves is zero or one again.
-/

namespace Chip8

structure Dot where
  column : Nat
  row : Nat
  bit : UInt8

/-- The dots of a sprite in the order of drawing. With `clip` a row ends at the right edge and the
sprite at the lower one. -/
def Sprite.dots (clip : Bool) (left top : Nat) (sprite : List UInt8) : List Dot :=
  (sprite.zipIdx.takeWhile fun (_, r) => !(clip && 32 ≤ top + r)).flatMap fun (row, r) =>
    ((List.range 8).takeWhile fun c => !(clip && 64 ≤ left + c)).map fun c =>
      ⟨(left + c) % 64, (top + r) % 32, (row >>> (7 - c).toUInt8) &&& 1⟩

structure Canvas where
  raster : Raster
  hit : UInt8

namespace Canvas

/-- The canvas with a dot on it, if the dot lies on the raster. -/
def plot? (k : Canvas) (p : Dot) : Option Canvas := do
  let cells ← k.raster[p.row]?
  let cell ← cells[p.column]?
  some ⟨k.raster.setIfInBounds p.row (cells.setIfInBounds p.column (cell ^^^ p.bit)),
    k.hit ||| (p.bit &&& cell)⟩

def ofFrame (f : Frame) (hit : Bool) : Canvas := ⟨f.cells, hit.toUInt8⟩

end Canvas

namespace Dot

/-- A dot that lies on the screen and is a single bit. -/
structure OnScreen (p : Dot) : Prop where
  column_lt : p.column < 64
  row_lt : p.row < 32
  bit_eq : p.bit = (p.bit == 1).toUInt8

def lights (p : Dot) (x : Fin 64) (y : Fin 32) : Bool :=
  p.column = x && p.row = y && p.bit == 1

/-- The picture whose lit pixels are those that some of the dots light. -/
def picture (dots : List Dot) : Frame := Frame.ofPixels fun x y => dots.any (·.lights x y)

def Apart (p q : Dot) : Prop := ¬(p.column = q.column ∧ p.row = q.row)

theorem pixel_picture (dots : List Dot) (x : Fin 64) (y : Fin 32) :
    (picture dots).pixel x y = dots.any (·.lights x y) := Frame.pixel_ofPixels ..

theorem picture_nil : picture [] = Frame.blank :=
  Frame.ext_pixel fun x y => by simp [pixel_picture]

private theorem lights_iff {p : Dot} {x : Fin 64} {y : Fin 32} :
    p.lights x y = true ↔ (p.column = x ∧ p.row = y) ∧ p.bit = 1 := by
  simp [lights]

private theorem pixel_picture_of_lights {p : Dot} {rest : List Dot} (apart : ∀ q ∈ rest, p.Apart q)
    {x : Fin 64} {y : Fin 32} (lit : p.lights x y = true) : (picture rest).pixel x y = false := by
  rw [pixel_picture, List.any_eq_false]
  intro q inside lit'
  have hp := (lights_iff.mp lit).1
  have hq := (lights_iff.mp lit').1
  exact apart q inside ⟨hp.1.trans hq.1.symm, hp.2.trans hq.2.symm⟩

private theorem pixel_picture_singleton (p : Dot) (x : Fin 64) (y : Fin 32) :
    (picture [p]).pixel x y = p.lights x y := by
  simp [pixel_picture]

private theorem pixel_picture_cons (p : Dot) (rest : List Dot) (x : Fin 64) (y : Fin 32) :
    (picture (p :: rest)).pixel x y = (p.lights x y || (picture rest).pixel x y) := by
  simp [pixel_picture]

theorem xor_picture_cons (f : Frame) {p : Dot} {rest : List Dot} (apart : ∀ q ∈ rest, p.Apart q) :
    (f.xor (picture [p])).xor (picture rest) = f.xor (picture (p :: rest)) := by
  refine Frame.ext_pixel fun x y => ?_
  simp only [Frame.pixel_xor, pixel_picture_singleton, pixel_picture_cons p rest]
  cases lit : p.lights x y
  · simp
  · simp [pixel_picture_of_lights apart lit]

theorem meets_picture_cons (f : Frame) {p : Dot} {rest : List Dot} (apart : ∀ q ∈ rest, p.Apart q) :
    f.meets (picture (p :: rest)) =
      (f.meets (picture [p]) || (f.xor (picture [p])).meets (picture rest)) := by
  -- the dot changes no pixel that a later dot looks at
  have unchanged {x : Fin 64} {y : Fin 32} (lit : (picture rest).pixel x y = true) :
      (f.xor (picture [p])).pixel x y = f.pixel x y := by
    rw [Frame.pixel_xor, pixel_picture_singleton]
    cases dot : p.lights x y
    · simp
    · exact absurd ((pixel_picture_of_lights apart dot).symm.trans lit) (by decide)
  rw [Bool.eq_iff_iff, Bool.or_eq_true, Frame.meets_iff, Frame.meets_iff, Frame.meets_iff]
  simp only [pixel_picture_cons p rest, pixel_picture_singleton, Bool.or_eq_true]
  constructor
  · rintro ⟨x, y, hf, lit | lit⟩
    · exact .inl ⟨x, y, hf, lit⟩
    · exact .inr ⟨x, y, (unchanged lit).trans hf, lit⟩
  · rintro (⟨x, y, hf, lit⟩ | ⟨x, y, hf, lit⟩)
    · exact ⟨x, y, hf, .inl lit⟩
    · exact ⟨x, y, (unchanged lit).symm.trans hf, .inr lit⟩

end Dot

namespace Canvas

private theorem toUInt8_xor (a b : Bool) : a.toUInt8 ^^^ b.toUInt8 = (a ^^ b).toUInt8 := by
  cases a <;> cases b <;> rfl

private theorem toUInt8_or_and (a b c : Bool) :
    a.toUInt8 ||| (b.toUInt8 &&& c.toUInt8) = (a || b && c).toUInt8 := by
  cases a <;> cases b <;> cases c <;> rfl

private theorem meets_picture_singleton (f : Frame) {p : Dot} (x : Fin 64) (y : Fin 32)
    (column : p.column = x) (row : p.row = y) :
    f.meets (Dot.picture [p]) = (p.bit == 1 && f.pixel x y) := by
  rw [Bool.eq_iff_iff, Frame.meets_iff, Bool.and_eq_true]
  simp only [Dot.pixel_picture, List.any_cons, List.any_nil, Bool.or_false, Dot.lights, column, row,
    Bool.and_eq_true, decide_eq_true_eq]
  constructor
  · rintro ⟨x', y', lit, ⟨hx, hy⟩, set⟩
    obtain rfl := Fin.ext hx
    obtain rfl := Fin.ext hy
    exact ⟨set, lit⟩
  · rintro ⟨set, lit⟩
    exact ⟨x, y, lit, ⟨rfl, rfl⟩, set⟩

private theorem plot?_ofFrame (f : Frame) (hit : Bool) {p : Dot} (h : p.OnScreen) :
    (ofFrame f hit).plot? p =
      some (ofFrame (f.xor (Dot.picture [p])) (hit || f.meets (Dot.picture [p]))) := by
  obtain ⟨column, row, bit⟩ := p
  obtain ⟨hx, hy, single⟩ := h
  dsimp only at hx hy single
  let x : Fin 64 := ⟨column, hx⟩
  let y : Fin 32 := ⟨row, hy⟩
  have line : f.cells[row]? = some (Vector.ofFn fun x => f.cell x y) := by simp [Frame.cells, hy, y]
  have cell : (Vector.ofFn fun x => f.cell x y)[column]? = some (f.cell x y) := by simp [hx, x]
  have raster : f.cells.setIfInBounds row
      ((Vector.ofFn fun x => f.cell x y).setIfInBounds column (f.cell x y ^^^ bit)) =
      (f.xor (Dot.picture [⟨column, row, bit⟩])).cells := by
    refine Vector.ext fun row' hy' => Vector.ext fun column' hx' => ?_
    simp only [Frame.cells, Vector.getElem_ofFn, Frame.cell, Frame.pixel_xor, ← toUInt8_xor,
      Vector.getElem_setIfInBounds, Dot.pixel_picture, List.any_cons, List.any_nil, Bool.or_false,
      Dot.lights]
    by_cases same : row = row'
    · subst same
      by_cases here : column = column'
      · subst here
        simp [x, y, ← single]
      · simp [here, y, toUInt8_xor]
    · simp [same, toUInt8_xor]
  have flag : hit.toUInt8 ||| (bit &&& f.cell x y) =
      (hit || f.meets (Dot.picture [⟨column, row, bit⟩])).toUInt8 := by
    rw [meets_picture_singleton f x y rfl rfl, ← toUInt8_or_and, ← single, Frame.cell]
  simp only [plot?, ofFrame, line, cell, raster, flag, Option.bind_eq_bind, Option.bind_some]

/-- Dots that lie apart from each other can be drawn one by one or all at once. -/
theorem foldlM_plot? {dots : List Dot} (onScreen : ∀ p ∈ dots, p.OnScreen)
    (apart : dots.Pairwise Dot.Apart) (f : Frame) (hit : Bool) :
    dots.foldlM plot? (ofFrame f hit) =
      some (ofFrame (f.xor (Dot.picture dots)) (hit || f.meets (Dot.picture dots))) := by
  induction dots generalizing f hit with
  | nil =>
    have dark : f.meets Frame.blank = false := by
      rw [Bool.eq_false_iff]
      intro met
      obtain ⟨x, y, -, lit⟩ := (Frame.meets_iff f Frame.blank).mp met
      exact absurd lit (by simp)
    have same : f.xor Frame.blank = f := Frame.ext_pixel fun x y => by simp
    simp [Dot.picture_nil, dark, same]
  | cons p rest ih =>
    obtain ⟨apartHead, apartRest⟩ := List.pairwise_cons.mp apart
    rw [List.foldlM_cons, plot?_ofFrame f hit (onScreen p (by simp))]
    change rest.foldlM plot? _ = _
    rw [ih (fun q inside => onScreen q (by simp [inside])) apartRest,
      Dot.xor_picture_cons f apartHead, Dot.meets_picture_cons f apartHead, Bool.or_assoc]

end Canvas

namespace Sprite

/-- Breaking off at the first element that fails drops just the elements that fail, where a failure
is followed by failures only. -/
private theorem takeWhile_eq_filter {α : Type} {p : α → Bool} {l : List α}
    (h : l.Pairwise fun a b => p b = true → p a = true) : l.takeWhile p = l.filter p := by
  induction l with
  | nil => rfl
  | cons a l ih =>
    obtain ⟨head, tail⟩ := List.pairwise_cons.mp h
    cases pa : p a
    · have none : l.filter p = [] := by
        rw [List.filter_eq_nil_iff]
        intro b inside pb
        exact absurd ((head b inside pb).symm.trans pa) (by decide)
      simp [pa, none]
    · simp [pa, ih tail]

private theorem pairwise_zipIdx (sprite : List UInt8) :
    sprite.zipIdx.Pairwise fun a b => a.2 < b.2 := by
  rw [← List.pairwise_map (f := Prod.snd) (R := (· < ·)), List.zipIdx_map_snd]
  exact List.pairwise_lt_range'

private theorem rows_eq_filter (clip : Bool) (top : Nat) (sprite : List UInt8) :
    (sprite.zipIdx.takeWhile fun (_, r) => !(clip && 32 ≤ top + r)) =
      sprite.zipIdx.filter fun (_, r) => !(clip && 32 ≤ top + r) := by
  refine takeWhile_eq_filter ((pairwise_zipIdx sprite).imp ?_)
  intro a b lt
  cases clip
  · simp
  · simp only [Bool.true_and, Bool.not_eq_true', decide_eq_false_iff_not]
    omega

private theorem columns_eq_filter (clip : Bool) (left : Nat) :
    ((List.range 8).takeWhile fun c => !(clip && 64 ≤ left + c)) =
      (List.range 8).filter fun c => !(clip && 64 ≤ left + c) := by
  refine takeWhile_eq_filter (List.pairwise_lt_range.imp ?_)
  intro a b lt
  cases clip
  · simp
  · simp only [Bool.true_and, Bool.not_eq_true', decide_eq_false_iff_not]
    omega

/-- A dot of a sprite is a bit of one of its rows that does not lie behind an edge it stops at. -/
theorem mem_dots {clip : Bool} {left top : Nat} {sprite : List UInt8} {p : Dot} :
    p ∈ dots clip left top sprite ↔ ∃ r row c, sprite[r]? = some row ∧ c < 8 ∧
      (clip = true → top + r < 32) ∧ (clip = true → left + c < 64) ∧
      p = ⟨(left + c) % 64, (top + r) % 32, (row >>> (7 - c).toUInt8) &&& 1⟩ := by
  rw [dots, rows_eq_filter, columns_eq_filter]
  simp only [List.mem_flatMap, List.mem_map, List.mem_filter, List.mem_zipIdx_iff_getElem?,
    List.mem_range, Prod.exists, Bool.not_eq_true', Bool.and_eq_false_imp, decide_eq_false_iff_not,
    Nat.not_le]
  constructor
  · rintro ⟨row, r, ⟨found, inRows⟩, c, ⟨hc, inColumns⟩, rfl⟩
    exact ⟨r, row, c, found, hc, inRows, inColumns, rfl⟩
  · rintro ⟨r, row, c, found, hc, inRows, inColumns, rfl⟩
    exact ⟨row, r, ⟨found, inRows⟩, c, ⟨hc, inColumns⟩, rfl⟩

private theorem shifted_bit (row : UInt8) {c : Nat} (hc : c < 8) :
    (row >>> (7 - c).toUInt8) &&& 1 = (bit row c).toUInt8 := by
  have small : (7 - c) % 256 % 8 = 7 - c := by omega
  have value : ((row >>> (7 - c).toUInt8) &&& 1).toNat = row.toNat / 2 ^ (7 - c) % 2 := by
    simp [Nat.shiftRight_eq_div_pow, small]
  have tested : bit row c = decide (row.toNat / 2 ^ (7 - c) % 2 = 1) := by
    rw [← Nat.testBit_eq_decide_div_mod_eq]
    simp [bit, BitVec.getMsbD, hc, BitVec.getLsbD]
  rw [tested]
  refine UInt8.toNat_inj.mp ?_
  rw [value]
  rcases Nat.mod_two_eq_zero_or_one (row.toNat / 2 ^ (7 - c)) with h | h <;> rw [h] <;> rfl

theorem onScreen_of_mem_dots {clip : Bool} {left top : Nat} {sprite : List UInt8} {p : Dot}
    (inside : p ∈ dots clip left top sprite) : p.OnScreen := by
  obtain ⟨r, row, c, -, hc, -, -, rfl⟩ := mem_dots.mp inside
  refine ⟨Nat.mod_lt _ (by decide), Nat.mod_lt _ (by decide), ?_⟩
  rw [shifted_bit row hc]
  cases bit row c <;> rfl

/-- A sprite that is no higher than the screen touches no pixel twice. -/
theorem pairwise_apart_dots (clip : Bool) (left top : Nat) {sprite : List UInt8}
    (hs : sprite.length ≤ 32) : (dots clip left top sprite).Pairwise Dot.Apart := by
  rw [dots, List.pairwise_flatMap]
  constructor
  · rintro ⟨row, r⟩ -
    rw [List.pairwise_map]
    refine (List.pairwise_lt_range.sublist (List.takeWhile_sublist _)).imp_of_mem ?_
    rintro c d hc hd lt ⟨column, -⟩
    have hd := List.mem_range.mp ((List.takeWhile_sublist _).mem hd)
    dsimp only at column
    omega
  · refine ((pairwise_zipIdx sprite).sublist (List.takeWhile_sublist _)).imp_of_mem ?_
    rintro ⟨row, r⟩ ⟨row', r'⟩ hr hr' lt p hp q hq ⟨-, same⟩
    have found := List.mem_zipIdx_iff_getElem?.mp ((List.takeWhile_sublist _).mem hr')
    have short := (List.getElem?_eq_some_iff.mp found).1
    obtain ⟨c, -, rfl⟩ := List.mem_map.mp hp
    obtain ⟨d, -, rfl⟩ := List.mem_map.mp hq
    dsimp only at same lt short
    omega

/-- The dots of a sprite make up its mask. -/
theorem picture_dots (clip : Bool) {left top : Nat} (hl : left < 64) (ht : top < 32)
    {sprite : List UInt8} (hs : sprite.length ≤ 32) :
    Dot.picture (dots clip left top sprite) = mask clip left top sprite := by
  refine Frame.ext_pixel fun x y => ?_
  rw [Dot.pixel_picture, Bool.eq_iff_iff, List.any_eq_true, pixel_mask_eq_true_iff clip hl ht hs]
  constructor
  · rintro ⟨p, inside, lit⟩
    obtain ⟨r, row, c, found, hc, inRows, inColumns, rfl⟩ := mem_dots.mp inside
    obtain ⟨⟨column, line⟩, set⟩ : (((left + c) % 64 = x ∧ (top + r) % 32 = y) ∧
        (row >>> (7 - c).toUInt8) &&& 1 = 1) := by simpa [Dot.lights] using lit
    refine ⟨r, row, c, found, ?_, inRows, inColumns, column, line⟩
    rw [shifted_bit row hc] at set
    cases h : bit row c
    · rw [h] at set
      exact absurd set (by decide)
    · rfl
  · rintro ⟨r, row, c, found, set, inRows, inColumns, column, line⟩
    have hc := lt_of_bit set
    refine ⟨_, mem_dots.mpr ⟨r, row, c, found, hc, inRows, inColumns, rfl⟩, ?_⟩
    simp [Dot.lights, column, line, shifted_bit row hc, set, Bool.toUInt8]

end Sprite

/-- Drawing a sprite in place stays on the raster and combines the screen with its mask. -/
theorem Canvas.foldlM_plot?_dots (clip : Bool) {left top : Nat} (hl : left < 64) (ht : top < 32)
    {sprite : List UInt8} (hs : sprite.length ≤ 32) (f : Frame) :
    (Sprite.dots clip left top sprite).foldlM plot? (ofFrame f false) =
      some (ofFrame (f.xor (Sprite.mask clip left top sprite))
        (f.meets (Sprite.mask clip left top sprite))) := by
  have onScreen : ∀ p ∈ Sprite.dots clip left top sprite, p.OnScreen :=
    fun _ => Sprite.onScreen_of_mem_dots
  rw [foldlM_plot? onScreen (Sprite.pairwise_apart_dots clip left top hs),
    Sprite.picture_dots clip hl ht hs, Bool.false_or]

end Chip8
