/-!
# Nibbles

Digits to base sixteen. A nibble names a register, a key, or a place in a block of words; `Cells` are
sixteen values under such names. `Hex` writes numbers with these digits in upper case.
-/

namespace Chip8

abbrev Nibble := Fin 16

def Nibble.ofNat (n : Nat) : Nibble := ⟨n % 16, Nat.mod_lt n (by decide)⟩

@[simp]
theorem Nibble.val_ofNat (n : Nat) : (Nibble.ofNat n).val = n % 16 := rfl

abbrev Cells (α : Type) := Vector α 16

namespace Cells
variable {α : Type}

def get (cells : Cells α) (x : Nibble) : α := cells[x]

def put (cells : Cells α) (x : Nibble) (a : α) : Cells α := cells.set x a

theorem ext_get {c d : Cells α} (h : ∀ x, c.get x = d.get x) : c = d :=
  Vector.ext fun k hk => h ⟨k, hk⟩

theorem get_put (c : Cells α) (x y : Nibble) (a : α) :
    (c.put x a).get y = if x = y then a else c.get y := by
  simp [get, put, Vector.getElem_set, Fin.ext_iff]

@[simp]
theorem get_put_self (c : Cells α) (x : Nibble) (a : α) : (c.put x a).get x = a := by
  simp [get_put]

theorem get_put_of_ne (c : Cells α) {x y : Nibble} (a : α) (h : x ≠ y) :
    (c.put x a).get y = c.get y := by
  simp [get_put, h]

@[simp]
theorem get_replicate (a : α) (x : Nibble) : Cells.get (Vector.replicate 16 a) x = a := by
  simp [get]

end Cells

namespace Hex

def digit (d : Nat) : Char :=
  if d < 10 then Char.ofNat (48 + d) else Char.ofNat (55 + d)

/-- The lowest `width` digits of `n`, the most significant first. -/
def low : Nat → Nat → List Char
  | 0, _ => []
  | width + 1, n => low width (n / 16) ++ [digit (n % 16)]

/-- The numeral of `n`, filled up with zeros to at least `width` digits. -/
def padded (width n : Nat) : List Char :=
  low (max width (n.log2 / 4 + 1)) n

@[simp]
theorem length_low (width n : Nat) : (low width n).length = width := by
  induction width generalizing n with
  | zero => rfl
  | succ width ih => simp [low, ih]

end Hex
end Chip8
