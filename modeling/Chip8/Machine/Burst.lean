import Chip8.Machine.Operation

/-!
# Bursts of steps

Up to a number of steps in a row, ended early by a fault or by a register that waits for a key.
-/

namespace Chip8

structure Burst where
  machine : Machine
  /-- The program counter after each step that ran an instruction. -/
  trail : List UInt16
  notices : List Notice
  /-- The outcome that ended the burst before its limit. -/
  stop : Option Outcome

namespace Machine

/-- Up to `n` steps, after a trail and records that are given with the newest first. -/
def burstOnto (trail : List UInt16) (notices : List Notice) : Nat → Machine → Burst
  | 0, m => ⟨m, trail.reverse, notices.reverse, none⟩
  | n + 1, m =>
    let notices := m.stepNotices.reverse ++ notices
    let (outcome, next) := m.step
    if outcome.moved then next.burstOnto (next.state.pc :: trail) notices n
    else ⟨next, trail.reverse, notices.reverse, some outcome⟩

def burst (n : Nat) (m : Machine) : Burst := m.burstOnto [] [] n

theorem burstOnto_eq (trail : List UInt16) (notices : List Notice) (n : Nat) (m : Machine) :
    m.burstOnto trail notices n =
      { m.burst n with trail := trail.reverse ++ (m.burst n).trail
                       notices := notices.reverse ++ (m.burst n).notices } := by
  induction n generalizing trail notices m with
  | zero => simp [burst, burstOnto]
  | succ n ih =>
    rw [burst, burstOnto, burstOnto]
    split
    next outcome next _ =>
      split
      · rw [ih, ih [next.state.pc]]
        simp
      · simp

/-- A burst is a step and, if that ran an instruction, a shorter burst. -/
theorem burst_succ (n : Nat) (m : Machine) :
    m.burst (n + 1) =
      if m.step.1.moved then
        { m.step.2.burst n with trail := m.step.2.state.pc :: (m.step.2.burst n).trail
                                notices := m.stepNotices ++ (m.step.2.burst n).notices }
      else ⟨m.step.2, [], m.stepNotices, some m.step.1⟩ := by
  rw [burst, burstOnto]
  split
  next outcome next stepped =>
    rw [stepped]
    split
    · rw [burstOnto_eq]
      simp
    · simp

end Machine
end Chip8
