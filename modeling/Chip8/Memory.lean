/-!
# Memory

4096 bytes. A run of bytes is read or written byte by byte; a place past the end reads as zero and
takes no value, so both are total, and whoever must not leave memory checks before.
-/

namespace Chip8

abbrev Memory := Vector UInt8 4096

namespace Memory

def size : Nat := 4096

def zero : Memory := Vector.replicate 4096 0

def byte (m : Memory) (a : Nat) : UInt8 := m[a]?.getD 0

def read (m : Memory) (start : Nat) : Nat → List UInt8
  | 0 => []
  | n + 1 => m.byte start :: m.read (start + 1) n

def write (m : Memory) (start : Nat) : List UInt8 → Memory
  | [] => m
  | b :: rest => write (m.setIfInBounds start b) (start + 1) rest

/-- The big-endian word at `a`. -/
def word (m : Memory) (a : Nat) : UInt16 :=
  (m.byte a).toUInt16 <<< 8 ||| (m.byte (a + 1)).toUInt16

theorem ext_byte {m n : Memory} (h : ∀ a, a < 4096 → m.byte a = n.byte a) : m = n :=
  Vector.ext fun a ha => by simpa [byte, ha] using h a ha

@[simp]
theorem byte_zero (a : Nat) : zero.byte a = 0 := by
  by_cases h : a < 4096 <;> simp [byte, zero, h]

theorem byte_of_size_le (m : Memory) {a : Nat} (outside : 4096 ≤ a) : m.byte a = 0 := by
  simp [byte, Nat.not_lt.mpr outside]

theorem byte_setIfInBounds (m : Memory) (start : Nat) (b : UInt8) {a : Nat} (ha : a < 4096) :
    byte (m.setIfInBounds start b) a = if start = a then b else m.byte a := by
  simp [byte, ha, Vector.getElem_setIfInBounds]

/-- A write changes the bytes it covers and no other. -/
theorem byte_write (m : Memory) (start : Nat) (bytes : List UInt8) {a : Nat} (ha : a < 4096) :
    (m.write start bytes).byte a =
      if start ≤ a then bytes[a - start]?.getD (m.byte a) else m.byte a := by
  induction bytes generalizing m start with
  | nil => simp [write]
  | cons b rest ih =>
    rw [write, ih, byte_setIfInBounds m start b ha]
    by_cases h : start = a
    · subst h; simp [Nat.not_le.mpr (Nat.lt_succ_self start)]
    · by_cases le : start ≤ a
      · have : a - start = a - (start + 1) + 1 := by omega
        simp [le, h, this, show start + 1 ≤ a by omega]
      · simp [le, h, show ¬start + 1 ≤ a by omega]

@[simp]
theorem length_read (m : Memory) (start n : Nat) : (m.read start n).length = n := by
  induction n generalizing start with
  | zero => rfl
  | succ n ih => simp [read, ih]

theorem getElem?_read (m : Memory) (start : Nat) {n k : Nat} (hk : k < n) :
    (m.read start n)[k]? = some (m.byte (start + k)) := by
  induction n generalizing start k with
  | zero => omega
  | succ n ih =>
    cases k with
    | zero => simp [read]
    | succ k =>
      rw [read, List.getElem?_cons_succ, ih (start + 1) (by omega)]
      congr 2; omega

theorem read_eq {m : Memory} {start : Nat} {bytes : List UInt8}
    (h : ∀ k, k < bytes.length → m.byte (start + k) = bytes[k]?.getD 0) :
    m.read start bytes.length = bytes := by
  refine List.ext_getElem? fun k => ?_
  by_cases inside : k < bytes.length
  · rw [getElem?_read m start inside, h k inside, List.getElem?_eq_getElem inside, Option.getD_some]
  · have outside : bytes.length ≤ k := Nat.not_lt.mp inside
    rw [List.getElem?_eq_none outside, List.getElem?_eq_none (by rwa [length_read])]

/-- What was written can be read back if it lies in memory. -/
theorem read_write (m : Memory) {start : Nat} {bytes : List UInt8}
    (inside : start + bytes.length ≤ 4096) :
    (m.write start bytes).read start bytes.length = bytes := by
  refine read_eq fun k covered => ?_
  rw [byte_write _ _ _ (by omega), if_pos (Nat.le_add_right ..), Nat.add_sub_cancel_left,
    List.getElem?_eq_getElem covered]
  rfl

theorem byte_write_of_apart (m : Memory) {start : Nat} {bytes : List UInt8} {a : Nat}
    (apart : a < start ∨ start + bytes.length ≤ a) : (m.write start bytes).byte a = m.byte a := by
  by_cases inside : a < 4096
  · rw [byte_write _ _ _ inside]
    split
    · rw [List.getElem?_eq_none (by omega), Option.getD_none]
    · rfl
  · rw [byte_of_size_le _ (Nat.not_lt.mp inside), byte_of_size_le _ (Nat.not_lt.mp inside)]

theorem write_read (m : Memory) (start n : Nat) : m.write start (m.read start n) = m := by
  refine ext_byte fun a ha => ?_
  by_cases covered : start ≤ a ∧ a - start < n
  · obtain ⟨le, inside⟩ := covered
    rw [byte_write _ _ _ ha, if_pos le, getElem?_read m start inside, Option.getD_some,
      Nat.add_sub_cancel' le]
  · refine byte_write_of_apart m ?_
    rw [length_read]
    omega

theorem write_append (m : Memory) (start : Nat) (bytes more : List UInt8) :
    m.write start (bytes ++ more) =
      (m.write start bytes).write (start + bytes.length) more := by
  induction bytes generalizing m start with
  | nil => rfl
  | cons b bytes ih =>
    rw [List.cons_append, write, ih, write, List.length_cons, Nat.add_right_comm, Nat.add_assoc]

end Memory
end Chip8
