import Chip8.Proofs.CommandLine.Pieces

/-!
# Lines that are accepted

Whatever is typed, what is known of it at any time can be used: the path is no empty text, and the
numbers are in bounds. So a line that is accepted asks for something that a session can be started
with.
-/

namespace Chip8.CommandLine

/-- What holds of a result, if there is one. -/
def IfOk {α : Type} (P : α → Prop) : Except Refusal α → Prop
  | .ok a => P a
  | .error _ => True

theorem IfOk.bind {α β : Type} {P : α → Prop} {Q : β → Prop} {x : Except Refusal α}
    {f : α → Except Refusal β} (first : IfOk P x) (next : ∀ a, P a → IfOk Q (f a)) :
    IfOk Q (x >>= f) := by
  cases x with
  | error _ => trivial
  | ok a => exact next a first

namespace Draft

/-- What is known can be used: the path is no empty text, and numbers are in bounds. -/
structure Sound (d : Draft) : Prop where
  path : ∀ text, d.path = some text → text ≠ ""
  values : ∀ p n, d.value? p = some n → p.least ≤ n ∧ n ≤ p.most

theorem Sound.put {d : Draft} (sound : d.Sound) {p : Parameter} {n : Nat}
    (inside : p.least ≤ n ∧ n ≤ p.most) : (d.put n p).Sound where
  path text h := sound.path text (path_put d n p ▸ h)
  values q m h := by
    rw [value?_put] at h
    split at h
    · next same => exact Option.some.inj h ▸ same ▸ inside
    · exact sound.values q m h

theorem sound_give (p : Parameter) (text : List Char) {d : Draft} (sound : d.Sound) :
    IfOk Sound (d.give p text) := by
  cases given : d.give p text with
  | error _ => trivial
  | ok e =>
    obtain ⟨-, n, ⟨-, inside⟩, rfl⟩ := give_eq_ok_iff.mp given
    exact sound.put inside

theorem sound_settle {d : Draft} (sound : d.Sound) : IfOk Sound d.settle := by
  cases settled : d.settle with
  | error _ => trivial
  | ok e =>
    obtain ⟨-, rfl⟩ | ⟨text, -, nonempty, rfl⟩ | ⟨p, text, n, -, -, inside, rfl⟩ :=
      of_settle settled
    · exact sound
    · refine ⟨fun found h => ?_, sound.values⟩
      rw [← Option.some.inj h]
      exact fun empty => nonempty (by simpa using empty)
    · exact Sound.put (d := { d with pending := .nothing }) ⟨sound.path, sound.values⟩ inside

theorem sound_turnOn (s : Switch) {d : Draft} (sound : d.Sound) : IfOk Sound (d.turnOn s) := by
  cases s with
  | help => trivial
  | version => trivial
  | verbose => exact ⟨sound.path, sound.values⟩
  | shiftsY | advancesIndex | clips =>
    simp only [turnOn]
    split
    · trivial
    · exact ⟨sound.path, sound.values⟩

theorem sound_parameter (p : Parameter) (attached : Option (List Char)) {d : Draft}
    (sound : d.Sound) : IfOk Sound (d.parameter p attached) := by
  refine (sound_settle sound).bind fun e sound => ?_
  cases attached with
  | none => exact ⟨sound.path, sound.values⟩
  | some text => exact sound_give p text sound

theorem sound_long (name : List Char) (attached : Option (List Char)) {d : Draft}
    (sound : d.Sound) : IfOk Sound (d.long name attached) := by
  unfold long
  split
  · trivial
  · exact sound_parameter _ _ sound
  · trivial
  · exact (sound_settle sound).bind fun e => sound_turnOn _

theorem sound_cluster (letters : List Char) {d : Draft} (sound : d.Sound) :
    IfOk Sound (cluster letters d) := by
  induction letters generalizing d with
  | nil => exact sound
  | cons c rest ih =>
    unfold cluster
    split
    · trivial
    · exact (sound_settle sound).bind fun e sound => (sound_turnOn _ sound).bind fun f => ih
    · split <;> exact sound_parameter _ _ sound

theorem sound_readPath (text : List Char) {d : Draft} (sound : d.Sound) :
    IfOk Sound (d.readPath text) := by
  unfold readPath
  split
  · trivial
  · exact (sound_settle sound).bind fun e sound => ⟨sound.path, sound.values⟩

theorem sound_plain (text : List Char) {d : Draft} (sound : d.Sound) :
    IfOk Sound (d.plain text) := by
  unfold plain
  split
  · exact ⟨sound.path, sound.values⟩
  · exact sound_readPath text sound

theorem sound_read (argument : String) {d : Draft} (sound : d.Sound) :
    IfOk Sound (d.read argument) := by
  unfold read
  split
  · exact sound_readPath _ sound
  · split
    · exact ⟨sound.path, sound.values⟩
    · exact sound_long _ _ sound
    · exact sound_cluster _ sound
    · exact sound_plain _ sound

theorem sound_foldlM (arguments : List String) {d : Draft} (sound : d.Sound) :
    IfOk Sound (arguments.foldlM read d) := by
  induction arguments generalizing d with
  | nil => exact sound
  | cons argument rest ih => exact (sound_read argument sound).bind fun e => ih

end Draft

/-- A session can be started with these settings. -/
structure Usable (s : Settings) : Prop where
  path : s.path ≠ ""
  scale : 1 ≤ s.scale ∧ s.scale ≤ 64
  rate : 1 ≤ s.rate ∧ s.rate ≤ 4294967295

namespace Draft

theorem Sound.getD {d : Draft} (sound : d.Sound) {p : Parameter} {usual : Nat}
    (inside : p.least ≤ usual ∧ usual ≤ p.most) :
    p.least ≤ (d.value? p).getD usual ∧ (d.value? p).getD usual ≤ p.most := by
  cases given : d.value? p with
  | none => exact inside
  | some n => exact sound.values p n given

theorem sound_finish {d : Draft} (sound : d.Sound) :
    IfOk (fun r => Usable r.settings) d.finish := by
  refine (sound_settle sound).bind fun e sound => ?_
  cases found : e.path with
  | none => trivial
  | some path =>
    exact ⟨sound.path path found, sound.getD (p := .scale) (by decide),
      sound.getD (p := .rate) (by decide)⟩

end Draft

/-- A line that is accepted asks for something that a session can be started with. -/
theorem usable_of_parse {arguments : List String} {r : Request} (h : parse arguments = .ok r) :
    Usable r.settings := by
  have empty : Draft.empty.Sound := ⟨nofun, fun p n h => by cases p <;> exact nomatch h⟩
  have usable : IfOk (fun r => Usable r.settings) (parse arguments) :=
    (Draft.sound_foldlM arguments empty).bind fun d => Draft.sound_finish
  rw [h] at usable
  exact usable

end Chip8.CommandLine
