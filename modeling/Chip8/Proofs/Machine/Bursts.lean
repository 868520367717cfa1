import Chip8.Machine.Burst
import Chip8.Proofs.Machine.Runs

/-!
# Steps and rewinds in a row

A burst leads where as many steps lead as it may take: where it ends early, the steps that it leaves
out would change nothing. Going back is as many rewinds as there are saved states, up to its limit.
-/

namespace Chip8.Machine

variable {m : Machine}

private theorem after_replicate_of_stuck {o : Operation} (stuck : (m.perform o).2 = m) (n : Nat) :
    m.after (List.replicate n o) = m := by
  have keeps : ∀ m', m' = m → (m'.perform o).2 = m := fun _ same => same ▸ stuck
  exact after_replicate_induction keeps rfl n

theorem machine_burst (n : Nat) (m : Machine) :
    (m.burst n).machine = m.after (List.replicate n .step) := by
  induction n generalizing m with
  | zero => rfl
  | succ n ih =>
    rw [burst_succ]
    split
    · exact ih m.step.2
    · next still =>
      have stuck : (m.perform .step).2 = m := step_of_not_moved (Bool.eq_false_iff.mpr still)
      exact stuck.trans (after_replicate_of_stuck stuck (n + 1)).symm

/-- A burst that runs fewer instructions than it may stands before one that cannot run. -/
theorem burst_stop (n : Nat) (m : Machine) :
    ((m.burst n).stop = none ∧ (m.burst n).trail.length = n) ∨
      ∃ o, (m.burst n).stop = some o ∧ (m.burst n).machine.upcoming = .error o := by
  induction n generalizing m with
  | zero => exact .inl ⟨rfl, rfl⟩
  | succ n ih =>
    rw [burst_succ]
    rcases step_cases m with ⟨i, -, stepped⟩ | ⟨o, stuck, still, stepped⟩
    · rw [stepped, if_pos (Outcome.moved_ran i)]
      rcases ih (m.run i) with ⟨stop, all⟩ | early
      · exact .inl ⟨stop, congrArg (· + 1) all⟩
      · exact .inr early
    · rw [stepped, if_neg (by simp [still])]
      exact .inr ⟨o, rfl, stuck⟩

theorem rewindUpTo_eq (n : Nat) (m : Machine) :
    m.rewindUpTo n = (min n m.saved.length,
      m.after (List.replicate (min n m.saved.length) .rewind)) := by
  induction n generalizing m with
  | zero => simp [rewindUpTo]
  | succ n ih =>
    rw [rewindUpTo]
    rcases rewind_cases m with ⟨none, -⟩ | ⟨s, back, rewound, went, saved, -⟩
    · rw [(rewind?_eq_none_iff m).mpr none, none]
      rfl
    · rw [saved, List.length_cons, Nat.add_min_add_right, List.replicate_succ, after_cons, went]
      simp only [rewound, ih back]

theorem answers_rewinds {n : Nat} (enough : n ≤ m.saved.length) :
    m.answers (List.replicate n .rewind) = List.replicate n (.rewound true) := by
  induction n generalizing m with
  | zero => rfl
  | succ n ih =>
    rcases rewind_cases m with ⟨none, -⟩ | ⟨s, back, -, went, saved, -⟩
    · rw [none] at enough
      exact absurd enough (Nat.not_succ_le_zero n)
    · rw [saved] at enough
      have rest := ih (Nat.le_of_succ_le_succ enough)
      rw [List.replicate_succ, List.replicate_succ, answers, went, rest]

end Chip8.Machine
