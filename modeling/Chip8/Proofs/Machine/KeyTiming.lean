import Chip8.Proofs.Instruction.Footprint
import Chip8.Proofs.Machine.Abreast

/-!
# When a key event comes

It does not matter whether a key goes down or up just before a step or just after it, unless the step
asks for that key or for any key. The two orders leave different keys in the state that is saved, but
nothing that is done to a machine ever brings the keys of a saved state back.
-/

namespace Chip8

namespace State

/-- The state without what it knows of the keys. -/
def keyless (s : State) : State := { s with keypad := Vector.replicate 16 false }

def rekey (keypad : Keypad) (s : State) : State := { s with keypad }

end State

namespace Instruction

variable {k : UInt8} {s : State} {i : Instruction}

/-- Whether an instruction may run otherwise if the key `k` had gone down or up before it. -/
def Asks (k : UInt8) (s : State) : Instruction → Prop
  | awaitKey _ => True
  | skipIfHeld x | skipUnlessHeld x => (s.reg x).toNat % 16 = k.toNat
  | _ => False

/-- With other keys held an instruction does the same, and leaves those keys held. -/
theorem apply_rekey {keypad : Keypad} (unasked : ¬i.Asks k s)
    (others : ∀ key : Nibble, key.val ≠ k.toNat → keypad.get key = s.keypad.get key)
    (d : Dialect) (w : WordStream) :
    i.apply d w (s.rekey keypad) = (i.apply d w s).rekey keypad := by
  cases i with
  | skipIfHeld x =>
    have same : (s.rekey keypad).holds (s.reg x) = s.holds (s.reg x) := others _ unasked
    exact congrArg (State.nextOrSkip · (s.rekey keypad)) same
  | skipUnlessHeld x =>
    have same : (s.rekey keypad).holds (s.reg x) = s.holds (s.reg x) := others _ unasked
    exact congrArg (fun held => State.nextOrSkip (!held) (s.rekey keypad)) same
  | loadRegisters x => simp only [apply, State.passIndex, State.loadFirst, State.next]; rfl
  | _ => rfl

end Instruction

namespace Machine

variable {m m' : Machine} {k : UInt8} {o : Operation}

/-- Two machines that differ in nothing but the keys of their saved states. -/
structure AlikeButSavedKeys (m m' : Machine) : Prop extends m.Abreast State.keyless m' where
  dialect : m'.dialect = m.dialect

theorem AlikeButSavedKeys.perform (h : m.AlikeButSavedKeys m') (o : Operation) :
    (m'.perform o).1 = (m.perform o).1 ∧
      (m.perform o).2.AlikeButSavedKeys (m'.perform o).2 := by
  obtain ⟨same, next⟩ := h.toAbreast.perform (fun _ _ => rfl) o fun _ i _ => by
    rw [h.dialect]
  refine ⟨same, next, ?_⟩
  by_cases set : ∃ d, o = .setDialect d
  · obtain ⟨d, rfl⟩ := set
    rfl
  · have kept : ∀ d, o ≠ .setDialect d := fun d is => set ⟨d, is⟩
    rw [dialect_perform m kept, dialect_perform m' kept, h.dialect]

theorem AlikeButSavedKeys.after (h : m.AlikeButSavedKeys m') (os : List Operation) :
    m'.answers os = m.answers os ∧ (m.after os).AlikeButSavedKeys (m'.after os) :=
  lockstep AlikeButSavedKeys (fun _ o _ alike => alike.perform o) h

/-- A key event does nothing to a machine that does not wait but to turn its own key. -/
theorem perform_key_event (event : o = .press k ∨ o = .release k) :
    ∃ turn : Keypad → Keypad,
      (∀ keypad key, key.val ≠ k.toNat → (turn keypad).get key = keypad.get key) ∧
      ∀ m : Machine, m.state.awaiting = none →
        (m.perform o).2 = { m with state := m.state.rekey (turn m.state.keypad) } := by
  by_cases known : k.toNat < 16
  · have named : key? k = some (Nibble.ofNat k.toNat) := if_pos known
    have own (key : Nibble) (other : key.val ≠ k.toNat) : Nibble.ofNat k.toNat ≠ key := by
      rintro rfl
      exact other (Nat.mod_eq_of_lt known)
    rcases event with rfl | rfl
    · refine ⟨(Cells.put · (Nibble.ofNat k.toNat) true), fun keypad key other => ?_,
        fun m free => ?_⟩
      · exact Cells.get_put_of_ne _ _ (own key other)
      · simp only [perform, press, named, free, State.rekey]
    · refine ⟨(Cells.put · (Nibble.ofNat k.toNat) false), fun keypad key other => ?_,
        fun m free => ?_⟩
      · exact Cells.get_put_of_ne _ _ (own key other)
      · simp only [perform, release, named]
        rfl
  · have unnamed : key? k = none := if_neg known
    refine ⟨id, fun _ _ _ => rfl, fun m _ => ?_⟩
    rcases event with rfl | rfl
    · simp only [perform, press, unnamed]
      rfl
    · simp only [perform, release, unnamed]
      rfl

/-- An instruction that does not ask for the key runs alike before the event and behind it. -/
theorem run_rekey {i : Instruction} {keypad : Keypad} (unasked : ¬i.Asks k m.state)
    (others : ∀ key : Nibble, key.val ≠ k.toNat → keypad.get key = m.state.keypad.get key) :
    ({ m.run i with state := (m.run i).state.rekey keypad } : Machine).AlikeButSavedKeys
      (Machine.run i { m with state := m.state.rekey keypad }) := by
  refine ⟨⟨Instruction.apply_rekey unasked others _ _, ?_, rfl, rfl⟩, rfl⟩
  change (Machine.run i _).saved.map _ = (m.run i).saved.map _
  rw [saved_run, saved_run, List.map_take, List.map_take]
  rfl

theorem key_event_swap (event : o = .press k ∨ o = .release k) (free : m.state.awaiting = none)
    (unasked : ∀ i, m.upcoming = .ok i → ¬i.Asks k m.state) :
    (m.perform o).2.step.1 = m.step.1 ∧
      (m.step.2.perform o).2.AlikeButSavedKeys (m.perform o).2.step.2 := by
  obtain ⟨turn, others, turns⟩ := perform_key_event event
  have now := turns m free
  have up : (m.perform o).2.upcoming = m.upcoming := by
    rw [now]
    rfl
  rcases step_cases_of_upcoming_eq up with
    ⟨i, ready, stepped, stepped'⟩ | ⟨o', -, stepped, stepped'⟩
  · have late : (m.run i).state.awaiting = none := by
      change (i.apply m.dialect m.random m.state).awaiting = none
      rw [Instruction.awaiting_apply]
      cases i with
      | awaitKey x => exact absurd trivial (unasked _ ready)
      | _ => exact free
    have same : (m.run i).state.keypad = m.state.keypad := i.keypad_apply m.dialect m.random m.state
    rw [stepped, stepped', turns _ late, now, same]
    exact ⟨rfl, run_rekey (unasked i ready) (others _)⟩
  · rw [stepped, stepped']
    exact ⟨rfl, ⟨rfl, rfl, rfl, rfl⟩, rfl⟩

/-- Whether a key event comes before a step or after it changes neither the answer of the step nor
the machine behind both, the keys of its saved states apart, unless the step asks for the key. Nor
can keys of saved states be told apart later, whatever is done. -/
theorem key_events_commute_with_steps :
    (∀ (m : Machine) (k : UInt8) (o : Operation), o = .press k ∨ o = .release k →
      m.state.awaiting = none → (∀ i, m.upcoming = .ok i → ¬i.Asks k m.state) →
        ((m.perform o).2.perform .step).1 = (m.perform .step).1 ∧
          (m.after [.step, o]).AlikeButSavedKeys (m.after [o, .step])) ∧
      ∀ m m' : Machine, m.AlikeButSavedKeys m' → ∀ later,
        m'.answers later = m.answers later ∧
          (m.after later).AlikeButSavedKeys (m'.after later) := by
  refine ⟨fun m k o event free unasked => ?_, fun m m' alike later => alike.after later⟩
  obtain ⟨same, alike⟩ := key_event_swap event free unasked
  exact ⟨congrArg Answer.stepped same, alike⟩

/-- A machine that is about to skip an instruction unless the key 5 is held. -/
def asksForFive : Machine :=
  (new Dialect.common (.ofList [])).after [.load [0x60, 0x05, 0xE0, 0xA1], .step]

/-- It may be told of the key 6 before or after. The saved states then differ, and do so after
another step as well, but going back twice leaves the machines in one state. -/
theorem key_events_commute_with_steps_asksForFive :
    let early := asksForFive.after [.press 6, .step]
    let late := asksForFive.after [.step, .press 6]
    early.saved ≠ late.saved ∧ late.AlikeButSavedKeys early ∧
      early.answers [.step, .rewind, .rewind] = late.answers [.step, .rewind, .rewind] ∧
      (early.after [.step, .rewind, .rewind]).state =
        (late.after [.step, .rewind, .rewind]).state := by
  intro early late
  have ⟨free, ready, five, differ⟩ :
      asksForFive.state.awaiting = none ∧
      asksForFive.upcoming.toOption = some (.skipUnlessHeld (Nibble.ofNat 0)) ∧
      asksForFive.state.reg (Nibble.ofNat 0) = 5 ∧
      early.saved.map State.keypad ≠ late.saved.map State.keypad := by
    decide +kernel
  have unasked : ∀ i, asksForFive.upcoming = .ok i → ¬i.Asks 6 asksForFive.state := by
    intro i up
    rw [up] at ready
    obtain rfl := Option.some.inj ready
    rw [Instruction.Asks, five]
    decide
  obtain ⟨-, alike⟩ :=
    key_events_commute_with_steps.1 asksForFive 6 (.press 6) (.inl rfl) free unasked
  obtain ⟨answers, last⟩ :=
    key_events_commute_with_steps.2 late early alike [.step, .rewind, .rewind]
  exact ⟨fun same => differ (congrArg (List.map State.keypad) same), alike, answers, last.state⟩

end Machine
end Chip8
