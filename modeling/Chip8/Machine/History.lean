/-!
# Histories

A stack that remembers only so many of the things pushed on it: beyond the limit the oldest are
forgotten. Forgetting is put off until twice as many are kept as can be reached, so that a push
costs the same however long the stack is. What is in reach is read through `entries`.
-/

namespace Chip8

structure History (α : Type) (limit : Nat) where
  /-- The entries in reach, the newest first, and some forgotten ones behind them. -/
  kept : List α
  size : Nat
  /-- How many of them are in reach. -/
  depth : Nat
  length_kept : kept.length = size
  depth_le_size : depth ≤ size
  depth_le_limit : depth ≤ limit

namespace History

variable {α : Type} {limit : Nat}

def entries (h : History α limit) : List α := h.kept.take h.depth

def empty : History α limit := ⟨[], 0, 0, rfl, Nat.le_refl 0, Nat.zero_le limit⟩

def push (a : α) (h : History α limit) : History α limit :=
  have := h.length_kept
  have := h.depth_le_size
  if large : 2 * limit ≤ h.size then
    ⟨(a :: h.kept).take limit, limit, min limit (h.depth + 1),
      by simp only [List.length_take, List.length_cons]; omega, by omega, by omega⟩
  else
    ⟨a :: h.kept, h.size + 1, min limit (h.depth + 1),
      by simp only [List.length_cons]; omega, by omega, by omega⟩

def pop? : History α limit → Option (α × History α limit)
  | ⟨a :: kept, size + 1, depth + 1, length_kept, depth_le_size, depth_le_limit⟩ =>
    some (a, ⟨kept, size, depth, Nat.succ.inj length_kept, Nat.le_of_succ_le_succ depth_le_size,
      Nat.le_of_succ_le depth_le_limit⟩)
  | _ => none

theorem length_entries (h : History α limit) : h.entries.length = h.depth := by
  rw [entries, List.length_take, h.length_kept]
  exact Nat.min_eq_left h.depth_le_size

theorem length_entries_le (h : History α limit) : h.entries.length ≤ limit :=
  h.length_entries ▸ h.depth_le_limit

/-- A push is a push on the entries, cut to the limit. -/
@[simp]
theorem entries_push (a : α) (h : History α limit) :
    (h.push a).entries = (a :: h.entries).take limit := by
  have cut : (a :: h.kept).take (min limit (h.depth + 1)) = (a :: h.entries).take limit := by
    rw [← List.take_take, List.take_succ_cons, entries]
  rw [push]
  split
  · rw [← cut]
    exact List.take_take.trans (congrArg (List.take · _) (Nat.min_eq_left (Nat.min_le_left ..)))
  · exact cut

theorem pop?_eq_none_iff (h : History α limit) : h.pop? = none ↔ h.entries = [] := by
  obtain ⟨kept, size, depth, length_kept, depth_le_size, _⟩ := h
  cases kept with
  | nil => simp [pop?, entries]
  | cons a kept =>
    cases length_kept
    cases depth <;> simp [pop?, entries]

theorem entries_of_pop? {h rest : History α limit} {a : α} (popped : h.pop? = some (a, rest)) :
    h.entries = a :: rest.entries := by
  obtain ⟨kept, size, depth, length_kept, depth_le_size, _⟩ := h
  cases kept with
  | nil => simp [pop?] at popped
  | cons b kept =>
    cases length_kept
    cases depth with
    | zero => simp [pop?] at popped
    | succ depth =>
      obtain ⟨rfl, rfl⟩ : b = a ∧ _ = rest := by simpa [pop?] using popped
      rfl

end History
end Chip8
