import Chip8.Proofs.Machine.Abreast
import Chip8.Proofs.Screen.Edges

/-!
# Where dialects show

Two machines that differ in their dialects only can be told apart by three kinds of instructions, and
by these only in some states: a shift between registers that are not equal, a transfer of registers,
and a sprite that reaches behind an edge of the screen. Until one of them is run where the dialects
differ in it, the machines give the same answers and stay alike. No fault depends on the dialect.
-/

namespace Chip8

/-- Whether two dialects may carry out an instruction differently in a state. -/
def Instruction.disputed (d d' : Dialect) (s : State) : Instruction → Bool
  | halve x y | double x y => d.shiftsY != d'.shiftsY && s.reg x != s.reg y
  | storeRegisters _ | loadRegisters _ => d.advancesIndex != d'.advancesIndex
  | draw x y height => d.clips != d'.clips &&
      Sprite.overhangs ((s.reg x).toNat % 64) ((s.reg y).toNat % 32) (s.atIndex height)
  | _ => false

namespace Instruction

variable {d d' : Dialect} {s : State}

/-- Where it does not matter which register is shifted, or both dialects shift the same. -/
theorem shifted_eq_of_not_disputed {x y : Reg}
    (agree : (d.shiftsY != d'.shiftsY && s.reg x != s.reg y) = false) :
    (if d'.shiftsY then s.reg y else s.reg x) = if d.shiftsY then s.reg y else s.reg x := by
  rcases Bool.and_eq_false_iff.mp agree with same | same
  · rw [bne_eq_false_iff_eq.mp same]
  · rw [bne_eq_false_iff_eq.mp same, ite_self, ite_self]

theorem passIndex_eq_of_not_disputed (agree : (d.advancesIndex != d'.advancesIndex) = false)
    (n : Nat) (s : State) : s.passIndex d' n = s.passIndex d n := by
  rw [State.passIndex, State.passIndex, bne_eq_false_iff_eq.mp agree]

theorem mask_eq_of_not_disputed {x y : Reg} {height : Nibble}
    (agree : (draw x y height).disputed d d' s = false) :
    Sprite.mask d'.clips ((s.reg x).toNat % 64) ((s.reg y).toNat % 32) (s.atIndex height) =
      Sprite.mask d.clips ((s.reg x).toNat % 64) ((s.reg y).toNat % 32) (s.atIndex height) := by
  rcases Bool.and_eq_false_iff.mp agree with same | within
  · rw [bne_eq_false_iff_eq.mp same]
  · exact Sprite.mask_eq_of_not_overhangs (s.left_lt x) (s.top_lt y) (s.length_atIndex_le height)
      within d'.clips d.clips

theorem apply_eq_of_not_disputed {i : Instruction} (agree : i.disputed d d' s = false)
    (w : WordStream) : i.apply d' w s = i.apply d w s := by
  cases i with
  | halve x y => simp only [apply, shifted_eq_of_not_disputed agree]
  | double x y => simp only [apply, shifted_eq_of_not_disputed agree]
  | storeRegisters x => simp only [apply, passIndex_eq_of_not_disputed agree]
  | loadRegisters x => simp only [apply, passIndex_eq_of_not_disputed agree]
  | draw x y height => simp only [apply, mask_eq_of_not_disputed agree]
  | _ => rfl

end Instruction

namespace Machine

variable {m m' : Machine} {os : List Operation}

/-- The instruction that a step runs, by its answer; a word that means nothing is not disputed. -/
theorem undisputed_of_upcoming {d d' : Dialect}
    (agree : ∀ i, (m.perform .step).1 = .stepped (.executed i) → i.disputed d d' m.state = false)
    {i : Instruction} (ready : m.upcoming = .ok i) : i.disputed d d' m.state = false := by
  have answered : (m.perform .step).1 = .stepped (Outcome.ran i) := by
    simp [perform, step, ready]
  cases i with
  | unsupported op => rfl
  | _ => exact agree _ answered

/-- Two machines that differ in nothing but the dialect answer alike and stay alike until a step
runs an instruction that their dialects dispute. -/
theorem dialects_agree_unless_disputed (alike : m.Abreast id m')
    (kept : ∀ d, .setDialect d ∉ os)
    (agree : ∀ before, before ++ [.step] <+: os → ∀ i,
      ((m.after before).perform .step).1 = .stepped (.executed i) →
        i.disputed m.dialect m'.dialect (m.after before).state = false) :
    m'.answers os = m.answers os ∧ (m.after os).Abreast id (m'.after os) ∧
      (m.after os).dialect = m.dialect ∧ (m'.after os).dialect = m'.dialect := by
  refine lockstep
    (fun n n' => n.Abreast id n' ∧ n.dialect = m.dialect ∧ n'.dialect = m'.dialect)
    (fun before o inside h => ?_) ⟨alike, rfl, rfl⟩
  obtain ⟨abreast, own, own'⟩ := h
  have other : ∀ d, o ≠ .setDialect d := by
    rintro d rfl
    exact kept d (inside.subset (by simp))
  obtain ⟨same, next⟩ := abreast.perform (fun _ _ => rfl) o fun is i ready => by
    subst is
    rw [own, own']
    exact Instruction.apply_eq_of_not_disputed
      (undisputed_of_upcoming (agree before inside) ready) _
  exact ⟨same, next, (dialect_perform _ other).trans own, (dialect_perform _ other).trans own'⟩

/-- The dialect that differs from the common one in everything. -/
def contrary : Dialect := ⟨true, true, true⟩

/-- A program that shifts one of two equal registers, draws a digit that just fits on the screen,
and stores registers at the very end of memory, where there is no room for them. -/
def careful : List Operation :=
  [.load [0x61, 0x05, 0x62, 0x05, 0x81, 0x26, 0x60, 0x3C, 0xD0, 0x35, 0xAF, 0xFF, 0xF1, 0x55],
    .step, .step, .step, .step, .step, .takeFrame, .step, .step, .tick, .rewind, .rewind, .step]

/-- The dialects dispute nothing that it runs, and the transfer faults in both. -/
theorem dialects_agree_unless_disputed_careful :
    let m := new Dialect.common (.ofList [])
    let m' := new contrary (.ofList [])
    m.Abreast id m' ∧ (∀ d, .setDialect d ∉ careful) ∧
      (∀ before, before ++ [.step] <+: careful → ∀ i,
        ((m.after before).perform .step).1 = .stepped (.executed i) →
          i.disputed Dialect.common contrary (m.after before).state = false) ∧
      (m.answers careful)[8]? = some (.stepped (.faulted (.outOfRange 0x20C 0x1000))) ∧
      m'.answers careful = m.answers careful ∧
      (m'.after careful).state = (m.after careful).state := by
  intro m m'
  have ⟨faults, checked⟩ :
      (m.answers careful)[8]? = some (.stepped (.faulted (.outOfRange 0x20C 0x1000))) ∧
      (List.range careful.length).all (fun n =>
        (m.after (careful.take n)).upcoming.toOption.all fun i =>
          !i.disputed Dialect.common contrary (m.after (careful.take n)).state) = true := by
    decide +kernel
  have alike : m.Abreast id m' := ⟨rfl, rfl, rfl, rfl⟩
  have kept : ∀ d, .setDialect d ∉ careful := by simp [careful]
  have agree : ∀ before, before ++ [.step] <+: careful → ∀ i,
      ((m.after before).perform .step).1 = .stepped (.executed i) →
        i.disputed Dialect.common contrary (m.after before).state = false := by
    intro before inside i executed
    have within : before.length < careful.length :=
      Nat.lt_of_succ_le (by simpa using inside.length_le)
    have place : before = careful.take before.length :=
      List.prefix_iff_eq_take.mp ((List.prefix_append before [.step]).trans inside)
    have undisputed := List.all_eq_true.mp checked _ (List.mem_range.mpr within)
    have ready := (upcoming_of_step_eq_executed (Answer.stepped.inj executed)).1
    rw [← place, ready] at undisputed
    simpa [Except.toOption] using undisputed
  obtain ⟨answers, last, -⟩ := dialects_agree_unless_disputed alike kept agree
  exact ⟨alike, kept, agree, faults, answers, last.state⟩

end Machine
end Chip8
