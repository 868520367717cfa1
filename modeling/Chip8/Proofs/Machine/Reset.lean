import Chip8.Proofs.Machine.Range
import Chip8.Proofs.Rom.Delivery

/-!
# What a reset forgets

A machine keeps the program of the last load that was not refused, whatever became of memory since.
A reset puts that program into fresh memory, so that nothing else of the past is left but the
dialect and the source of chance: the machine is a new one into which the program was loaded.
-/

namespace Chip8

/-- The program that an operation brings into the machine, by what it was answered. -/
def Operation.brought? : Operation → Answer → Option (List UInt8)
  | .load program, .loaded _ => some program
  | .loadRom file, .loaded _ => some file.delivered
  | _, _ => none

/-- The program of the last load that was not refused. -/
def lastBrought? (os : List Operation) (as : List Answer) : Option (List UInt8) :=
  (os.zip as).reverse.findSome? fun (o, a) => o.brought? a

namespace State

/-- Memory behind a reset: the program at its place, and the glyphs and zeros elsewhere. -/
theorem byte_install_powerOn {program : List UInt8} (fits : program.length ≤ romLimit) (a : Nat) :
    (powerOn.install program).memory.byte a =
      (if programStart ≤ a then program[a - programStart]? else glyphs[a]?).getD 0 := by
  have start : programStart = 512 := rfl
  have limit : romLimit = 3584 := rfl
  have count : glyphs.length = 80 := rfl
  by_cases inside : a < 4096
  · change ((Memory.zero.write 0 glyphs).write programStart program).byte a = _
    rw [Memory.byte_write _ _ _ inside, Memory.byte_write _ _ _ inside, Memory.byte_zero,
      if_pos (Nat.zero_le a), Nat.sub_zero]
    split
    · next behind =>
      -- the glyphs end before the program starts
      have dark : glyphs[a]? = none := List.getElem?_eq_none (by omega)
      rw [dark, Option.getD_none]
    · rfl
  · have outside : 4096 ≤ a := Nat.not_lt.mp inside
    have none : program[a - programStart]? = none := List.getElem?_eq_none (by omega)
    rw [Memory.byte_of_size_le _ outside, if_pos (by omega), none, Option.getD_none]

variable {program : List UInt8} (fits : program.length ≤ romLimit)
include fits

theorem read_glyphs_install_powerOn :
    (powerOn.install program).memory.read 0 80 = glyphs := by
  have count : glyphs.length = 80 := rfl
  have start : programStart = 512 := rfl
  rw [← count]
  refine Memory.read_eq fun k inside => ?_
  rw [byte_install_powerOn fits, Nat.zero_add, if_neg (by omega)]

theorem read_program_install_powerOn :
    (powerOn.install program).memory.read 0x200 program.length = program :=
  Memory.read_write _ (Nat.add_le_add_left fits 0x200)

theorem byte_install_powerOn_of_apart {a : Nat} (behind : 80 ≤ a)
    (apart : a < 0x200 ∨ 0x200 + program.length ≤ a) :
    (powerOn.install program).memory.byte a = 0 := by
  have start : programStart = 0x200 := rfl
  rw [byte_install_powerOn fits]
  split
  · rw [List.getElem?_eq_none (by omega), Option.getD_none]
  · rw [List.getElem?_eq_none (show glyphs.length ≤ a from behind), Option.getD_none]

end State

namespace Machine

/-- Loading from a file keeps all that the file delivers. -/
theorem program_of_loadRom {file : Reader} {m loaded : Machine} {size : Nat}
    (h : m.loadRom file = .ok (size, loaded)) : loaded.program = file.delivered := by
  unfold loadRom at h
  split at h
  · exact nomatch h
  · next program read =>
    cases loads : m.load program with
    | error e => simp [loads, Except.map] at h
    | ok loaded' =>
      obtain ⟨fits, rfl⟩ := load_eq_ok_iff.mp loads
      obtain ⟨rfl, rfl⟩ : program.length = size ∧ _ = loaded := by simpa [loads, Except.map] using h
      exact Reader.eq_delivered_of_readUpTo read (Nat.lt_succ_of_le fits)

theorem program_perform (m : Machine) (o : Operation) :
    (m.perform o).2.program = (o.brought? (m.perform o).1).getD m.program := by
  cases o with
  | step =>
    rcases perform_step_cases m with ⟨i, -, stepped⟩ | ⟨o, -, stepped⟩
    · rw [stepped]
      rfl
    · rw [stepped]
      rfl
  | rewind =>
    rcases rewind_cases m with ⟨-, same⟩ | ⟨s, back, -, went, -, shape⟩
    · rw [same]
      rfl
    · rw [went, shape]
      rfl
  | press k =>
    obtain ⟨keypad, v, awaiting, shape⟩ := press_shape k m
    change (m.press k).program = m.program
    rw [shape]
  | release k =>
    obtain ⟨keypad, shape⟩ := release_shape k m
    change (m.release k).program = m.program
    rw [shape]
  | load program =>
    cases loads : m.load program with
    | error e => simp [perform, loads, Operation.brought?]
    | ok loaded =>
      obtain ⟨-, rfl⟩ := load_eq_ok_iff.mp loads
      simp [perform, loads, Operation.brought?]
  | loadRom file =>
    cases loads : m.loadRom file with
    | error e => simp [perform, loads, Operation.brought?]
    | ok found =>
      obtain ⟨size, loaded⟩ := found
      have := program_of_loadRom loads
      simp [perform, loads, Operation.brought?, this]
  | tick => rfl
  | reset => rfl
  | takeFrame => rfl
  | clearRedraw => rfl
  | setDialect d => rfl
  | setRandom w => rfl

theorem program_after (m : Machine) (os : List Operation) :
    (m.after os).program = (lastBrought? os (m.answers os)).getD m.program :=
  after_latest Machine.program program_perform os m

/-- Whatever was done to a new machine, a reset makes it a new one with the program that was loaded
last, and nothing done to it later can tell the two apart. -/
theorem reset_forgets (d : Dialect) (w entropy source : WordStream) (os : List Operation) :
    let m := (new d w).after os
    let program := (lastBrought? os ((new d w).answers os)).getD []
    let restarted := m.after [.reset, .setRandom source]
    let fresh := (new Dialect.common entropy).after [.setDialect m.dialect, .setRandom source]
    fresh.perform (.load program) = (.loaded program.length, restarted) ∧
      (∀ later, restarted.answers later = (fresh.perform (.load program)).2.answers later) ∧
      restarted.saved = [] ∧
      restarted.state.memory.read 0 80 = glyphs ∧
      restarted.state.memory.read 0x200 program.length = program ∧
      ∀ a, 80 ≤ a → a < 0x200 ∨ 0x200 + program.length ≤ a →
        restarted.state.memory.byte a = 0 := by
  intro m program restarted fresh
  have kept : m.program = program := program_after (new d w) os
  have fits : program.length ≤ romLimit := kept ▸ (inRange_after d w os).program_le
  have shape : restarted =
      ⟨State.powerOn.install program, .empty, program, m.dialect, source⟩ := by
    change (⟨State.powerOn.install m.program, .empty, m.program, m.dialect, source⟩ : Machine) = _
    rw [kept]
  have loads : fresh.load program = .ok restarted := load_eq_ok_iff.mpr ⟨fits, shape⟩
  have same : fresh.perform (.load program) = (.loaded program.length, restarted) := by
    rw [perform, loads]
  refine ⟨same, fun later => by rw [same], rfl, ?_, ?_, fun a behind apart => ?_⟩
  · rw [shape]
    exact State.read_glyphs_install_powerOn fits
  · rw [shape]
    exact State.read_program_install_powerOn fits
  · rw [shape]
    exact State.byte_install_powerOn_of_apart fits behind apart

end Machine
end Chip8
