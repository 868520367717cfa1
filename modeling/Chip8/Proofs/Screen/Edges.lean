import Chip8.Screen.Sprite

/-!
# Sprites at the edges

Where the set bits of a sprite land: on the screen as they lie, or where they would lie behind an
edge, nowhere or at the opposite side. A sprite none of whose set bits lies behind an edge looks the
same whether it is clipped or wrapped around.
-/

namespace Chip8.Sprite

theorem offset_eq_some_iff {clip : Bool} {size origin place r : Nat} (ho : origin < size)
    (hp : place < size) (hr : r < size) :
    offset clip size origin place = some r ↔
      (clip = true → origin + r < size) ∧ (origin + r) % size = place := by
  have wrapped : (origin + r) % size =
      if origin + r < size then origin + r else origin + r - size := by
    split
    · exact Nat.mod_eq_of_lt ‹_›
    · rw [Nat.mod_eq_sub_mod (by omega), Nat.mod_eq_of_lt (by omega)]
  have unwrapped : (place + size - origin) % size =
      if origin ≤ place then place - origin else place + size - origin := by
    split
    · rw [Nat.mod_eq_sub_mod (by omega), Nat.mod_eq_of_lt (by omega)]
      omega
    · exact Nat.mod_eq_of_lt (by omega)
  rw [wrapped]
  cases clip
  · simp only [offset, Bool.false_eq_true, if_false, unwrapped, Option.some.injEq, false_imp_iff,
      true_and]
    split <;> split <;> omega
  · simp only [offset, if_true, true_imp_iff]
    split <;> split <;> simp only [Option.some.injEq, reduceCtorEq, false_iff] <;> omega

theorem lt_of_bit {row : UInt8} {c : Nat} (set : bit row c = true) : c < 8 := by
  refine Nat.lt_of_not_le fun le => ?_
  rw [bit, BitVec.getMsbD_of_ge _ c le] at set
  exact absurd set (by decide)

/-- A lit pixel of a mask is where a set bit of the sprite lands. -/
theorem pixel_mask_eq_true_iff (clip : Bool) {left top : Nat} (hl : left < 64) (ht : top < 32)
    {sprite : List UInt8} (hs : sprite.length ≤ 32) {x : Fin 64} {y : Fin 32} :
    (mask clip left top sprite).pixel x y = true ↔ ∃ r row c, sprite[r]? = some row ∧
      bit row c = true ∧ (clip = true → top + r < 32) ∧ (clip = true → left + c < 64) ∧
      (left + c) % 64 = x ∧ (top + r) % 32 = y := by
  rw [pixel_mask clip hl]
  simp only [Option.any_eq_true, Option.bind_eq_some_iff]
  constructor
  · rintro ⟨row, ⟨r, line, found⟩, c, column, set⟩
    have short := (List.getElem?_eq_some_iff.mp found).1
    have hc := lt_of_bit set
    obtain ⟨inRows, line⟩ := (offset_eq_some_iff ht y.isLt (by omega)).mp line
    obtain ⟨inColumns, column⟩ := (offset_eq_some_iff hl x.isLt (by omega)).mp column
    exact ⟨r, row, c, found, set, inRows, inColumns, column, line⟩
  · rintro ⟨r, row, c, found, set, inRows, inColumns, column, line⟩
    have short := (List.getElem?_eq_some_iff.mp found).1
    have hc := lt_of_bit set
    refine ⟨row, ⟨r, ?_, found⟩, c, ?_, set⟩
    · exact (offset_eq_some_iff ht y.isLt (by omega)).mpr ⟨inRows, line⟩
    · exact (offset_eq_some_iff hl x.isLt (by omega)).mpr ⟨inColumns, column⟩

/-- Whether a sprite has a set bit behind the right or the lower edge of the screen. -/
def overhangs (left top : Nat) (sprite : List UInt8) : Bool :=
  sprite.zipIdx.any fun (row, r) =>
    (List.range 8).any fun c => bit row c && (64 ≤ left + c || 32 ≤ top + r)

theorem inside_of_not_overhangs {left top : Nat} {sprite : List UInt8}
    (within : overhangs left top sprite = false) {r c : Nat} {row : UInt8}
    (found : sprite[r]? = some row) (set : bit row c = true) : left + c < 64 ∧ top + r < 32 := by
  have hr : (row, r) ∈ sprite.zipIdx := List.mem_zipIdx_iff_getElem?.mpr found
  have hc : c ∈ List.range 8 := List.mem_range.mpr (lt_of_bit set)
  have inside := Bool.eq_false_iff.mpr (List.any_eq_false.mp within _ hr)
  simpa [set] using List.any_eq_false.mp inside c hc

/-- A sprite that does not reach behind an edge need not be clipped or wrapped around. -/
theorem mask_eq_of_not_overhangs {left top : Nat} (hl : left < 64) (ht : top < 32)
    {sprite : List UInt8} (hs : sprite.length ≤ 32) (within : overhangs left top sprite = false)
    (clip clip' : Bool) : mask clip left top sprite = mask clip' left top sprite := by
  refine Frame.ext_pixel fun x y => ?_
  have lands (clip clip' : Bool) (lit : (mask clip left top sprite).pixel x y = true) :
      (mask clip' left top sprite).pixel x y = true := by
    rw [pixel_mask_eq_true_iff _ hl ht hs] at lit ⊢
    obtain ⟨r, row, c, found, set, -, -, place⟩ := lit
    obtain ⟨inColumns, inRows⟩ := inside_of_not_overhangs within found set
    exact ⟨r, row, c, found, set, fun _ => inRows, fun _ => inColumns, place⟩
  exact Bool.eq_iff_iff.mpr ⟨lands clip clip', lands clip' clip⟩

end Chip8.Sprite
