import Chip8.Proofs.Instruction.Words
import Chip8.Proofs.Machine.Runs

/-!
# What is taken from the source of chance

A step that runs the random instruction takes one word, and nothing else that is done to a machine
takes any or gives one back. So the words taken since the source was set are as many as such steps
were answered, those that were rewound or reset since among them, and the next such step reads the
word with that number.
-/

namespace Chip8

/-- A step ran the random instruction. -/
def Answer.drew : Answer → Bool
  | .stepped (.executed (.random _ _)) => true
  | _ => false

namespace Machine

theorem drew_stepped_ran (i : Instruction) :
    (Answer.stepped (Outcome.ran i)).drew.toNat = i.draws := by
  cases i <;> rfl

theorem drew_stepped_of_not_moved {o : Outcome} (still : o.moved = false) :
    (Answer.stepped o).drew = false := by
  cases o with
  | executed i => exact nomatch still
  | unsupported op => rfl
  | awaiting x => rfl
  | faulted f => rfl

/-- An operation that does not set the source anew takes a word from it if it ran the random
instruction, and leaves it alone otherwise. -/
theorem random_perform (m : Machine) {o : Operation} (kept : ∀ w, o ≠ .setRandom w) :
    (m.perform o).2.random = m.random.advance (m.perform o).1.drew.toNat := by
  cases o with
  | step =>
    rcases perform_step_cases m with ⟨i, -, stepped⟩ | ⟨o, still, stepped⟩
    · rw [stepped, drew_stepped_ran]
      rfl
    · rw [stepped, drew_stepped_of_not_moved still]
      rfl
  | rewind =>
    rcases rewind_cases m with ⟨-, same⟩ | ⟨s, back, -, went, -, shape⟩
    · rw [same]
      rfl
    · rw [went, shape]
      rfl
  | press k =>
    obtain ⟨keypad, v, awaiting, shape⟩ := press_shape k m
    change (m.press k).random = m.random
    rw [shape]
  | release k =>
    obtain ⟨keypad, shape⟩ := release_shape k m
    change (m.release k).random = m.random
    rw [shape]
  | load program =>
    cases loads : m.load program with
    | error e => simp [perform, loads, Answer.drew]
    | ok loaded =>
      obtain ⟨-, rfl⟩ := load_eq_ok_iff.mp loads
      simp [perform, loads, Answer.drew]
  | loadRom file =>
    cases loads : m.loadRom file with
    | error e => simp [perform, loads, Answer.drew]
    | ok found =>
      obtain ⟨size, loaded⟩ := found
      obtain ⟨program, read, -⟩ := loadRom_eq_ok loads
      obtain ⟨-, rfl⟩ := load_eq_ok_iff.mp read
      simp [perform, loads, Answer.drew]
  | tick => rfl
  | reset => rfl
  | takeFrame => rfl
  | clearRedraw => rfl
  | setDialect d => rfl
  | setRandom w => exact absurd rfl (kept w)

theorem random_after (m : Machine) {os : List Operation} (kept : ∀ w, .setRandom w ∉ os) :
    (m.after os).random = m.random.advance ((m.answers os).countP Answer.drew) := by
  induction os generalizing m with
  | nil => rfl
  | cons o os ih =>
    have first : ∀ w, o ≠ .setRandom w := fun w same => kept w (same ▸ List.mem_cons_self)
    have rest : ∀ w, .setRandom w ∉ os := fun w later => kept w (List.mem_cons_of_mem o later)
    rw [after_cons, ih _ rest, random_perform m first, WordStream.advance_advance, Nat.add_comm,
      answers, List.countP_cons]
    cases (m.perform o).1.drew <;> rfl

/-- From the time that the words of a source are set, whatever is done, the words that were read are
as many as the random instructions that were run, and the next one masks the low byte of the next
word. The register and the mask stand in the word that is run, which is CXNN. -/
theorem random_reads_in_order (m : Machine) (word : Nat → UInt32) {os : List Operation}
    (kept : ∀ w, .setRandom w ∉ os) :
    let start := (m.perform (.setRandom ⟨word, 0⟩)).2
    let there := start.after os
    let read := (start.answers os).countP Answer.drew
    there.random = ⟨word, read⟩ ∧
      ∀ x mask, there.step.1 = .executed (.random x mask) →
        (there.step.2.state.reg x).toNat = (word read).toNat % 256 &&& mask.toNat ∧
          there.step.2.random = ⟨word, read + 1⟩ ∧
          ∃ op, there.state.fetch = .ok op ∧ op.toNat / 0x100 = 0xC0 + x.val ∧
            op.toNat % 0x100 = mask.toNat := by
  intro start there read
  have source : there.random = ⟨word, read⟩ := by
    have advanced := random_after start kept
    rwa [WordStream.advance, show start.random = ⟨word, 0⟩ from rfl, Nat.zero_add] at advanced
  refine ⟨source, fun x mask executed => ?_⟩
  obtain ⟨up, ran⟩ := upcoming_of_step_eq_executed executed
  obtain ⟨-, inside, decoded, -⟩ := upcoming_eq_ok_iff.mp up
  have row := Instruction.writtenAs_decode (there.state.memory.word there.state.pc.toNat)
  rw [decoded] at row
  rw [ran]
  refine ⟨?_, ?_, _, State.fetch_eq_ok_iff.mpr ⟨inside, rfl⟩, row⟩
  · have value : ((there.run (.random x mask)).state.reg x) = there.random.byte &&& mask := by
      exact Cells.get_put_self ..
    rw [value, source, WordStream.byte, UInt8.toNat_and]
    rfl
  · change there.random.advance 1 = _
    rw [source]
    rfl

/-- A program that draws into V0, draws into V1 behind a mask that hides all, and starts again. -/
def drawsForever : Machine :=
  (new Dialect.common (.ofList [])).after [.load [0xC0, 0xFF, 0xC1, 0x00, 0x12, 0x00]]

/-- The program with its words from a seed. -/
def drawsSeeded : Machine := (drawsForever.perform (.setRandom (.seeded 42))).2

/-- A draw that is rewound, one that is hidden, and a reset. -/
def drawsUndone : List Operation :=
  [.step, .rewind, .step, .step, .tick, .press 3, .reset, .load [], .setDialect Dialect.common]

/-- The fourth draw reads the fourth word. -/
theorem random_reads_in_order_drawsUndone :
    let word := (WordStream.seeded 42).word
    let there := drawsSeeded.after drawsUndone
    (∀ w, .setRandom w ∉ drawsUndone) ∧
      (drawsSeeded.answers drawsUndone).countP Answer.drew = 3 ∧
      there.step.1 = .executed (.random (Nibble.ofNat 0) 0xFF) ∧
      (there.step.2.state.reg (Nibble.ofNat 0)).toNat = (word 3).toNat % 256 &&& 0xFF := by
  have ⟨count, draws⟩ : (drawsSeeded.answers drawsUndone).countP Answer.drew = 3 ∧
      (drawsSeeded.after drawsUndone).step.1 = .executed (.random (Nibble.ofNat 0) 0xFF) := by
    decide +kernel
  have kept : ∀ w, .setRandom w ∉ drawsUndone := by simp [drawsUndone]
  have reads := random_reads_in_order drawsForever (WordStream.seeded 42).word kept
  have seeded :
      drawsSeeded = (drawsForever.perform (.setRandom ⟨(WordStream.seeded 42).word, 0⟩)).2 := rfl
  rw [← seeded] at reads
  dsimp only at reads
  rw [count] at reads
  exact ⟨kept, count, draws, (reads.2 _ _ draws).1⟩

end Machine
end Chip8
