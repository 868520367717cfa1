import Chip8.Proofs.Machine.Runs
import Chip8.Proofs.Rom.Delivery

/-!
# Loading in pieces

A file is loaded as the bytes that its reader delivers, whatever the pieces they come in. One byte
more than the limit is enough to refuse it, and what the reader would answer behind that byte is
never asked. A refused program leaves the machine alone; one that is loaded changes its place in
memory and the program that is kept.
-/

namespace Chip8.Machine

theorem perform_load_of_fits (m : Machine) {program : List UInt8}
    (fits : program.length ≤ romLimit) :
    m.perform (.load program) =
      (.loaded program.length, { m with state := m.state.install program, program }) := by
  have loads : m.load program = .ok _ := if_pos fits
  simp only [perform, loads]

theorem perform_load_of_large (m : Machine) {program : List UInt8}
    (large : romLimit < program.length) :
    m.perform (.load program) = (.refused (.tooLarge program.length), m) := by
  have refused : m.load program = .error (.tooLarge program.length) := if_neg (Nat.not_le.mpr large)
  simp only [perform, refused]

/-- Loading from a file is loading what it delivers, unless that is too large or ends in a
failure. -/
theorem perform_loadRom (m : Machine) (file : Reader) :
    m.perform (.loadRom file) =
      if romLimit + 1 ≤ file.delivered.length then (.refused (.tooLarge (romLimit + 1)), m)
      else match file.ending? with
        | some e => (.refused (.io e), m)
        | none => m.perform (.load file.delivered) := by
  by_cases large : romLimit + 1 ≤ file.delivered.length
  · -- what is read stops one byte behind the limit, and that is the size that is reported
    have cut : (file.delivered.take (romLimit + 1)).length = romLimit + 1 :=
      List.length_take_of_le large
    have refused :
        m.load (file.delivered.take (romLimit + 1)) = .error (.tooLarge (romLimit + 1)) := by
      rw [load, if_neg (by omega), cut]
    simp only [perform, loadRom, Reader.readUpTo_eq, if_pos large, refused, Except.map]
  · cases ending : file.ending? with
    | some e => simp only [perform, loadRom, Reader.readUpTo_eq, if_neg large, ending]
    | none =>
      have fits : file.delivered.length ≤ romLimit := Nat.le_of_not_lt large
      have loads : m.load file.delivered = .ok _ := if_pos fits
      simp only [perform, loadRom, Reader.readUpTo_eq, if_neg large, ending, loads, Except.map]

/-- A file that is read in pieces is refused for its size as soon as one byte too many has come,
then for a failure of its reader; else it is loaded as the program that its pieces make up. A
program is loaded just where it fits, and changes memory in its place only; what is refused changes
nothing. -/
theorem loadRom_in_pieces (m : Machine) {pieces : List (List UInt8)} (filled : [] ∉ pieces)
    (failure : Option IoError) :
    let bytes := pieces.flatten
    let answered := m.perform (.loadRom ⟨pieces, failure⟩)
    (3585 ≤ bytes.length → answered = (.refused (.tooLarge 3585), m)) ∧
      (∀ e, bytes.length ≤ 3584 → failure = some e → answered = (.refused (.io e), m)) ∧
      (bytes.length ≤ 3584 → failure = none → answered.1 = .loaded bytes.length ∧
        answered = m.perform (.load bytes)) ∧
      ∀ program : List UInt8,
        (program.length ≤ 3584 → ∃ memory,
          m.perform (.load program) =
            (.loaded program.length, { m with state := { m.state with memory }, program }) ∧
          memory.read 0x200 program.length = program ∧
          ∀ a, a < 0x200 ∨ 0x200 + program.length ≤ a → memory.byte a = m.state.memory.byte a) ∧
        (3584 < program.length →
          m.perform (.load program) = (.refused (.tooLarge program.length), m)) := by
  intro bytes answered
  obtain ⟨delivered, ending⟩ := Reader.delivered_of_filled filled failure
  have read : answered = if 3585 ≤ bytes.length then (.refused (.tooLarge 3585), m)
      else match failure with
        | some e => (.refused (.io e), m)
        | none => m.perform (.load bytes) := by
    have loads := perform_loadRom m ⟨pieces, failure⟩
    rwa [delivered, ending] at loads
  refine ⟨fun large => ?_, fun e fits fails => ?_, fun fits ends => ?_, fun program => ⟨?_, ?_⟩⟩
  · rw [read, if_pos large]
  · rw [read, if_neg (by omega), fails]
  · have same : answered = m.perform (.load bytes) := by
      rw [read, if_neg (by omega), ends]
    rw [same, perform_load_of_fits m fits]
    exact ⟨rfl, rfl⟩
  · intro fits
    refine ⟨_, perform_load_of_fits m fits, ?_, fun a apart => ?_⟩
    · exact Memory.read_write _ (Nat.add_le_add_left fits 0x200)
    · exact Memory.byte_write_of_apart _ apart
  · exact perform_load_of_large m

/-- As many bytes as fit, in 512 pieces. -/
def brimful : List (List UInt8) := List.replicate 512 (List.replicate 7 0xEE)

/-- A reader that fails behind as many bytes as fit is refused for its failure, but for the size if
another byte comes before. -/
theorem loadRom_in_pieces_brimful :
    let m := new Dialect.common (.ofList [])
    [] ∉ brimful ∧ brimful.flatten.length = 3584 ∧
      m.perform (.loadRom ⟨brimful, some .unexpectedEnd⟩) = (.refused (.io .unexpectedEnd), m) ∧
      [] ∉ brimful ++ [[0xEE]] ∧ (brimful ++ [[0xEE]]).flatten.length = 3585 ∧
      m.perform (.loadRom ⟨brimful ++ [[0xEE]], some .unexpectedEnd⟩) =
        (.refused (.tooLarge 3585), m) := by
  intro m
  have filled : [] ∉ brimful := fun none => nomatch (List.mem_replicate.mp none).2
  have filled' : [] ∉ brimful ++ [[0xEE]] := by simp [filled]
  have full : brimful.flatten.length = 3584 := by decide +kernel
  have spilt : (brimful ++ [[0xEE]]).flatten.length = 3585 := by
    rw [List.flatten_append, List.length_append, full]
    rfl
  obtain ⟨-, fails, -⟩ := loadRom_in_pieces m filled (some .unexpectedEnd)
  obtain ⟨refused, -⟩ := loadRom_in_pieces m filled' (some .unexpectedEnd)
  exact ⟨filled, full, fails _ (Nat.le_of_eq full) rfl, filled', spilt,
    refused (Nat.le_of_eq spilt.symm)⟩

end Chip8.Machine
