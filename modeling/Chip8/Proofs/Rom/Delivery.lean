import Chip8.Rom

/-!
# What a reader delivers

The bytes of a file are those of its pieces up to the first empty one, however they are cut. Reading
up to a limit gives the first of them, as many as the limit; only a reader that holds fewer is asked
how it ends.
-/

namespace Chip8.Reader

/-- The bytes before the first read that gives none. -/
def delivered (r : Reader) : List UInt8 := (r.pieces.takeWhile (· ≠ [])).flatten

/-- The failure behind the delivered bytes, if they do not end with the file. -/
def ending? (r : Reader) : Option IoError := if [] ∈ r.pieces then none else r.failure

@[simp]
theorem delivered_nil (failure : Option IoError) : delivered ⟨[], failure⟩ = [] := rfl

@[simp]
theorem delivered_nil_cons (rest : List (List UInt8)) (failure : Option IoError) :
    delivered ⟨[] :: rest, failure⟩ = [] := by
  simp [delivered]

theorem delivered_cons {piece : List UInt8} (some : piece ≠ []) (rest : List (List UInt8))
    (failure : Option IoError) :
    delivered ⟨piece :: rest, failure⟩ = piece ++ delivered ⟨rest, failure⟩ := by
  simp [delivered, some]

theorem ending?_cons {piece : List UInt8} (some : piece ≠ []) (rest : List (List UInt8))
    (failure : Option IoError) :
    ending? ⟨piece :: rest, failure⟩ = ending? ⟨rest, failure⟩ := by
  simp [ending?, some.symm]

/-- Where no read gives nothing, all pieces are delivered, and the failure stands behind them. -/
theorem delivered_of_filled {pieces : List (List UInt8)} (filled : [] ∉ pieces)
    (failure : Option IoError) :
    delivered ⟨pieces, failure⟩ = pieces.flatten ∧ ending? ⟨pieces, failure⟩ = failure := by
  refine ⟨?_, if_neg filled⟩
  induction pieces with
  | nil => rfl
  | cons piece rest ih =>
    obtain ⟨some, filled⟩ := not_or.mp (mt List.mem_cons.mpr filled)
    rw [delivered_cons (Ne.symm some), ih filled, List.flatten_cons]

private theorem gather_eq (failure : Option IoError) (limit : Nat) (pieces : List (List UInt8)) :
    gather failure limit pieces =
      if limit ≤ (delivered ⟨pieces, failure⟩).length then
        .ok ((delivered ⟨pieces, failure⟩).take limit)
      else match ending? ⟨pieces, failure⟩ with
        | some e => .error e
        | none => .ok (delivered ⟨pieces, failure⟩) := by
  induction pieces generalizing limit with
  | nil => cases limit <;> cases failure <;> simp [gather, ending?]
  | cons piece rest ih =>
    cases limit with
    | zero => simp [gather]
    | succ limit =>
      by_cases none : piece = []
      · subst none
        simp [gather, ending?]
      · rw [gather, ih, delivered_cons none, ending?_cons none, List.length_append,
          List.take_append]
        · by_cases full : limit + 1 ≤ piece.length + (delivered ⟨rest, failure⟩).length
          · rw [if_pos full, if_pos (Nat.sub_le_iff_le_add'.mpr full)]
            rfl
          · have whole : piece.take (limit + 1) = piece := List.take_of_length_le (by omega)
            rw [if_neg full, if_neg (by omega), whole]
            cases ending? ⟨rest, failure⟩ <;> rfl
        · exact none

theorem readUpTo_eq (r : Reader) (limit : Nat) :
    r.readUpTo limit =
      if limit ≤ r.delivered.length then .ok (r.delivered.take limit)
      else match r.ending? with
        | some e => .error e
        | none => .ok r.delivered :=
  gather_eq r.failure limit r.pieces

/-- What is read below the limit is all that is delivered. -/
theorem eq_delivered_of_readUpTo {r : Reader} {limit : Nat} {bytes : List UInt8}
    (h : r.readUpTo limit = .ok bytes) (short : bytes.length < limit) : bytes = r.delivered := by
  rw [readUpTo_eq] at h
  split at h
  · next full =>
    cases h
    rw [List.length_take, Nat.min_eq_left full] at short
    exact absurd short (Nat.lt_irrefl limit)
  · split at h
    · exact nomatch h
    · exact (Except.ok.inj h).symm

end Chip8.Reader
