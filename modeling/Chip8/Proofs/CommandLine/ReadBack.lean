import Chip8.Proofs.CommandLine.Accepted

/-!
# Reading command lines back

A line of pieces is read as what its pieces ask for, however they are spelled and in whatever order
they stand: the reader notes one piece after the other, and finds room for each as long as none says
what is known already.
-/

namespace Chip8.CommandLine

section Cons
variable (x : Piece) (pieces : List Piece)

theorem paths_cons : paths (x :: pieces) = x.path?.toList ++ paths pieces := by
  cases h : x.path? <;> simp [paths, h]

theorem values_cons (p : Parameter) :
    values (x :: pieces) p = (x.value? p).toList ++ values pieces p := by
  cases h : x.value? p <;> simp [values, h]

theorem choices_cons (c : Choice) :
    choices (x :: pieces) c = (x.chooses c).toNat + choices pieces c := by
  cases h : x.chooses c <;> simp [choices, h, Nat.add_comm]

theorem verbosity_cons : verbosity (x :: pieces) = x.more + verbosity pieces := rfl

end Cons

namespace Piece
variable {x : Piece} {e : Draft}

theorem path_note (fits : x.Fits e) :
    (x.note e).path.toList = e.path.toList ++ x.path?.toList := by
  cases x with
  | path text => simp [note, path?, fits.1]
  | long | short | choice | verbose | verboseLong => simp [note, path?]

theorem toList_value?_put {e : Draft} {q : Parameter} (free : e.value? q = none) (n : Nat)
    (p : Parameter) :
    ((e.put n q).value? p).toList =
      (e.value? p).toList ++ (if q = p then some n else none).toList := by
  rw [Draft.value?_put]
  split
  · next same => simp [← same, free]
  · simp

theorem value?_note (fits : x.Fits e) (p : Parameter) :
    ((x.note e).value? p).toList = (e.value? p).toList ++ (x.value? p).toList := by
  cases x with
  | long q _ n => exact toList_value?_put fits.1 n.value p
  | short more q _ _ _ n =>
    exact toList_value?_put (e := { e with verbosity := e.verbosity + more }) fits.1 n.value p
  | path | choice | verbose | verboseLong => exact (List.append_nil _).symm

theorem made_note (fits : x.Fits e) (c : Choice) :
    (c.made (x.note e).dialect).toNat = (c.made e.dialect).toNat + (x.chooses c).toNat := by
  cases x with
  | choice a =>
    simp only [note, chooses, Choice.made_make]
    by_cases same : a = c
    · subst same
      rw [show a.made e.dialect = false from fits]
      simp
    · simp [same]
  | path | long | short | verbose | verboseLong => simp [note, chooses]

theorem verbosity_note : (x.note e).verbosity = e.verbosity + x.more := by
  cases x <;> simp [note, more]

end Piece

/-- There is room in `e` for what the pieces say: nothing is said twice. -/
structure Room (e : Draft) (pieces : List Piece) : Prop where
  isPath : ∀ text ∈ paths pieces, IsPath text
  inside : ∀ p, ∀ n ∈ values pieces p, p.least ≤ n ∧ n ≤ p.most
  path : (e.path.toList ++ paths pieces).length ≤ 1
  values : ∀ p, ((e.value? p).toList ++ values pieces p).length ≤ 1
  choices : ∀ c, (c.made e.dialect).toNat + choices pieces c ≤ 1

/-- What is known in `f` is what is known in `e` and what the pieces say. -/
structure Noted (e : Draft) (pieces : List Piece) (f : Draft) : Prop where
  path : f.path.toList = e.path.toList ++ paths pieces
  values : ∀ p, (f.value? p).toList = (e.value? p).toList ++ values pieces p
  choices : ∀ c, (c.made f.dialect).toNat = (c.made e.dialect).toNat + choices pieces c
  verbosity : f.verbosity = e.verbosity + verbosity pieces

section Room
variable {e f : Draft} {x : Piece} {pieces : List Piece}

theorem eq_none_of_length_le {α : Type} {o : Option α} {a : α} {rest : List α}
    (room : (o.toList ++ a :: rest).length ≤ 1) : o = none := by
  cases o with
  | none => rfl
  | some b => simp at room

theorem Room.value (room : Room e (x :: pieces)) {p : Parameter} {n : Nat}
    (given : x.value? p = some n) : e.value? p = none ∧ p.least ≤ n ∧ n ≤ p.most := by
  have once := room.values p
  have inside := room.inside p
  simp only [values_cons, given, Option.toList_some, List.singleton_append] at once inside
  exact ⟨eq_none_of_length_le once, inside n List.mem_cons_self⟩

theorem Room.fits (room : Room e (x :: pieces)) : x.Fits e := by
  cases x with
  | path text =>
    have once := room.path
    have isPath := room.isPath
    rw [paths_cons] at once isPath
    exact ⟨eq_none_of_length_le once, isPath text List.mem_cons_self⟩
  | long p _ n => exact room.value (if_pos rfl)
  | short _ p _ _ _ n => exact room.value (if_pos rfl)
  | choice c =>
    have once := room.choices c
    rw [choices_cons, Piece.chooses, decide_eq_true rfl] at once
    change c.made e.dialect = false
    cases made : c.made e.dialect with
    | false => rfl
    | true =>
      rw [made, Bool.toNat_true] at once
      omega
  | verbose => trivial
  | verboseLong => trivial

theorem Room.next (room : Room e (x :: pieces)) : Room (x.note e) pieces where
  isPath text inside := room.isPath text (by rw [paths_cons]; exact List.mem_append_right _ inside)
  inside p n inside := room.inside p n (by rw [values_cons]; exact List.mem_append_right _ inside)
  path := by
    rw [Piece.path_note room.fits, List.append_assoc, ← paths_cons]
    exact room.path
  values p := by
    rw [Piece.value?_note room.fits, List.append_assoc, ← values_cons]
    exact room.values p
  choices c := by
    rw [Piece.made_note room.fits, Nat.add_assoc, ← choices_cons]
    exact room.choices c

theorem Noted.cons (fits : x.Fits e) (noted : Noted (x.note e) pieces f) :
    Noted e (x :: pieces) f where
  path := by rw [noted.path, Piece.path_note fits, List.append_assoc, paths_cons]
  values p := by rw [noted.values, Piece.value?_note fits, List.append_assoc, values_cons]
  choices c := by rw [noted.choices, Piece.made_note fits, Nat.add_assoc, choices_cons]
  verbosity := by rw [noted.verbosity, Piece.verbosity_note, Nat.add_assoc, verbosity_cons]

open Draft in
/-- Where there is room, reading a line notes all its pieces. -/
theorem read_line {d : Draft} (stands : Stands d e) (room : Room e pieces) :
    ∃ f g, (pieces.flatMap Piece.arguments).foldlM read d = .ok f ∧ Stands f g ∧
      Noted e pieces g := by
  induction pieces generalizing d e with
  | nil => exact ⟨d, e, rfl, stands, ⟨by simp [paths], by simp [values], by simp [choices], rfl⟩⟩
  | cons x pieces ih =>
    obtain ⟨next, one, known⟩ := Piece.read_arguments stands room.fits
    obtain ⟨f, g, rest, later, noted⟩ := ih known room.next
    refine ⟨f, g, ?_, later, noted.cons room.fits⟩
    rw [List.flatMap_cons, List.foldlM_append, one]
    exact rest

end Room

section Writes
variable {pieces : List Piece} {r : Request}

namespace Gives
variable {p : Parameter} {usual n : Nat} (gives : Gives pieces p usual n)
include gives

theorem eq_of_mem {m : Nat} (given : m ∈ values pieces p) : m = n := by
  rcases gives with once | ⟨never, -⟩
  · exact List.mem_singleton.mp (once ▸ given)
  · exact nomatch (never ▸ given : m ∈ [])

theorem length_le : (values pieces p).length ≤ 1 := by
  rcases gives with once | ⟨never, -⟩
  · simp [once]
  · simp [never]

theorem getD {o : Option Nat} (noted : o.toList = values pieces p) : o.getD usual = n := by
  rcases gives with once | ⟨never, rfl⟩
  · rw [Option.toList_eq_singleton_iff.mp (noted.trans once), Option.getD_some]
  · rw [Option.toList_eq_nil_iff.mp (noted.trans never), Option.getD_none]

end Gives

theorem Choice.made_common (c : Choice) : c.made .common = false := by
  cases c <;> rfl

theorem Choice.ext_made {a b : Dialect} (h : ∀ c : Choice, (c.made a).toNat = (c.made b).toNat) :
    a = b := by
  have inj : ∀ x y : Bool, x.toNat = y.toNat → x = y := by decide
  have same (c : Choice) : c.made a = c.made b := inj _ _ (h c)
  obtain ⟨shiftsY, advancesIndex, clips⟩ := a
  rw [show shiftsY = b.shiftsY from same .shiftsY,
    show advancesIndex = b.advancesIndex from same .advancesIndex,
    show clips = b.clips from same .clips]

namespace Writes
variable (writes : Writes pieces r)
include writes

theorem room : Room .empty pieces where
  isPath text inside := by
    rw [writes.path] at inside
    exact List.mem_singleton.mp inside ▸ writes.named
  inside p n given := by
    cases p with
    | scale => exact writes.scale.eq_of_mem given ▸ writes.scale_bounds
    | rate => exact writes.rate.eq_of_mem given ▸ writes.rate_bounds
    | seed =>
      rw [writes.seed, Option.mem_toList, Option.map_eq_some_iff] at given
      obtain ⟨seed, -, rfl⟩ := given
      exact ⟨Nat.zero_le _, Nat.le_of_lt_succ seed.toNat_lt⟩
  path := by simp [Draft.empty, writes.path]
  values p := by
    cases p with
    | scale => exact writes.scale.length_le
    | rate => exact writes.rate.length_le
    | seed =>
      rw [writes.seed]
      exact Option.length_toList_le
  choices c := by
    rw [writes.choices, Draft.empty, Choice.made_common, Bool.toNat_false, Nat.zero_add]
    exact Bool.toNat_le _

/-- A draft in which the pieces of a line are noted ends as what the line asks for. -/
theorem finish {f g : Draft} (stands : Draft.Stands f g) (noted : Noted .empty pieces g) :
    f.finish = .ok r := by
  have path : g.path = some r.settings.path :=
    Option.toList_eq_singleton_iff.mp (noted.path.trans writes.path)
  have scale : g.scale.getD Settings.usualScale = r.settings.scale :=
    writes.scale.getD (noted.values .scale)
  have rate : g.rate.getD Settings.usualRate = r.settings.rate :=
    writes.rate.getD (noted.values .rate)
  have seed : g.seed.map Nat.toUInt64 = r.settings.seed := by
    have given := (noted.values .seed).trans writes.seed
    cases fixed : r.settings.seed with
    | none =>
      rw [fixed] at given
      rw [show g.seed = none from Option.toList_eq_nil_iff.mp given]
      rfl
    | some seed =>
      rw [fixed] at given
      rw [show g.seed = some seed.toNat from Option.toList_eq_singleton_iff.mp given]
      exact congrArg some UInt64.ofNat_toNat
  have dialect : g.dialect = r.settings.dialect := Choice.ext_made fun c => by
    rw [noted.choices, writes.choices, Draft.empty, Choice.made_common]
    exact Nat.zero_add _
  have verbosity : g.verbosity = r.verbosity := by
    rw [noted.verbosity, writes.verbosity]
    exact Nat.zero_add _
  rw [Draft.finish, stands.settles]
  simp only [bind, Except.bind, path]
  rw [scale, rate, seed, dialect, verbosity]
  rfl

end Writes

/-- A line is read as what it asks for. -/
theorem Writes.parse_eq (writes : Writes pieces r) :
    parse (pieces.flatMap Piece.arguments) = .ok r := by
  have start : Draft.Stands .empty .empty := .of_pending rfl rfl
  obtain ⟨f, g, reads, stands, noted⟩ := read_line start writes.room
  rw [parse, reads]
  exact writes.finish stands noted

end Writes

section Spelled
variable (cs : List Choice)

/-- Options of the dialect ask for nothing else. -/
theorem of_choices :
    paths (cs.map .choice) = [] ∧ (∀ p, values (cs.map .choice) p = []) ∧
      verbosity (cs.map .choice) = 0 := by
  induction cs with
  | nil => exact ⟨rfl, fun _ => rfl, rfl⟩
  | cons c cs ih =>
    obtain ⟨paths, values, verbosity⟩ := ih
    simp [paths_cons, values_cons, verbosity_cons, Piece.path?, Piece.value?, Piece.more, paths,
      values, verbosity]

theorem choices_made (d : Dialect) (c : Choice) :
    choices (([.shiftsY, .advancesIndex, .clips].filter (·.made d)).map .choice) c =
      (c.made d).toNat := by
  obtain ⟨shiftsY, advancesIndex, clips⟩ := d
  cases c <;> revert shiftsY advancesIndex clips <;> decide

end Spelled

namespace Request

/-- The options of a request that change the dialect. -/
def options (r : Request) : List Piece :=
  ([.shiftsY, .advancesIndex, .clips].filter (Choice.made · r.settings.dialect)).map .choice

/-- One of the lines that write a request. -/
def pieces (r : Request) : List Piece :=
  .path r.settings.path :: .short r.verbosity .scale 's' rfl .apart ⟨false, 0, r.settings.scale⟩ ::
    .long .rate false ⟨false, 0, r.settings.rate⟩ ::
    match r.settings.seed with
    | none => r.options
    | some seed => .long .seed false ⟨false, 0, seed.toNat⟩ :: r.options

/-- Every request of a session that can be started is written by some line. -/
theorem writes_pieces {r : Request} (isPath : IsPath r.settings.path) (usable : Usable r.settings) :
    Writes r.pieces r where
  path := by
    cases h : r.settings.seed <;> simp [pieces, options, h, paths_cons, Piece.path?, of_choices]
  named := isPath
  scale := by
    left
    cases h : r.settings.seed <;>
      simp [pieces, options, h, values_cons, Piece.value?, of_choices]
  scale_bounds := usable.scale
  rate := by
    left
    cases h : r.settings.seed <;>
      simp [pieces, options, h, values_cons, Piece.value?, of_choices]
  rate_bounds := usable.rate
  seed := by
    cases h : r.settings.seed <;>
      simp [pieces, options, h, values_cons, Piece.value?, of_choices]
  choices c := by
    cases h : r.settings.seed <;>
      simp [pieces, options, h, choices_cons, Piece.chooses, choices_made]
  verbosity := by
    cases h : r.settings.seed <;>
      simp [pieces, options, h, verbosity_cons, Piece.more, of_choices]

theorem logLevel_eq (r : Request) :
    r.logLevel = [Level.warn, .info, .debug].getD r.verbosity .trace := by
  obtain ⟨settings, verbosity⟩ := r
  match verbosity with
  | 0 | 1 | 2 | _ + 3 => rfl

end Request

/-- Whatever settings a session can be started with, some line writes them, and every line that
writes them is read as them, and as the level that its number of requests for more records means.
A line that is accepted asks for a path and for numbers in bounds, however it is written. -/
theorem parse_reads_back :
    (∀ (pieces : List Piece) (r : Request), Writes pieces r →
        parse (pieces.flatMap Piece.arguments) = .ok r ∧
          r.logLevel = [Level.warn, .info, .debug].getD r.verbosity .trace) ∧
      (∀ r : Request, IsPath r.settings.path → Usable r.settings → ∃ pieces, Writes pieces r) ∧
      ∀ (arguments : List String) (r : Request), parse arguments = .ok r → Usable r.settings :=
  ⟨fun _ r writes => ⟨writes.parse_eq, r.logLevel_eq⟩,
    fun r isPath usable => ⟨r.pieces, Request.writes_pieces isPath usable⟩,
    fun _ _ => usable_of_parse⟩

theorem parse_reads_back_clusters :
    parse ["-vvs05", "--clip", "rom.ch8", "--seed=+007", "-vi", "90"] =
        .ok ⟨⟨"rom.ch8", 5, 90, ⟨false, false, true⟩, some 7⟩, 3⟩ ∧
      (∃ pieces, Writes pieces ⟨⟨"rom.ch8", 5, 90, ⟨false, false, true⟩, some 7⟩, 3⟩) ∧
      Usable ⟨"rom.ch8", 5, 90, ⟨false, false, true⟩, some 7⟩ := by
  let pieces : List Piece :=
    [.short 2 .scale 's' rfl .joint ⟨false, 1, 5⟩, .choice .clips, .path "rom.ch8",
      .long .seed true ⟨true, 2, 7⟩, .short 1 .rate 'i' rfl .apart ⟨false, 0, 90⟩]
  have writes : Writes pieces ⟨⟨"rom.ch8", 5, 90, ⟨false, false, true⟩, some 7⟩, 3⟩ :=
    { path := rfl, named := ⟨by decide, by decide⟩, scale := .inl rfl, scale_bounds := by decide,
      rate := .inl rfl, rate_bounds := by decide, seed := rfl,
      choices := fun c => by cases c <;> rfl, verbosity := rfl }
  have reads := (parse_reads_back.1 pieces _ writes).1
  have usable := parse_reads_back.2.2 _ _ reads
  exact ⟨reads, parse_reads_back.2.1 _ writes.named usable, usable⟩

end Chip8.CommandLine
