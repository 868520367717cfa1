import Chip8.Proofs.CommandLine.Lines

/-!
# Reading the pieces of a command line

The reader looks at a path, and at a number in an argument of its own, later than at everything
else. A draft with something pending stands for the draft that it becomes once that is looked at,
and reading the arguments of a piece takes one that stands for `e` to one that stands for `e` with
the piece noted.
-/

namespace Chip8

namespace Decimal

theorem value_replicate_append (zeros : Nat) (digits : List Char) :
    value (List.replicate zeros '0' ++ digits) = value digits := by
  induction zeros with
  | zero => rfl
  | succ zeros ih => exact ih

theorem value_toDigits (n : Nat) : value (Nat.toDigits 10 n) = n :=
  Nat.ofDigitChars_toDigits (by decide) (by decide)

theorem read?_of_isDigit {digits : List Char} (isDigit : ∀ c ∈ digits, c.isDigit)
    (nonempty : digits ≠ []) : read? digits = some (value digits) := by
  have sound : digits ≠ [] ∧ digits.all Char.isDigit := ⟨nonempty, List.all_eq_true.mpr isDigit⟩
  rw [read?, if_pos sound]
  rintro rest rfl
  exact absurd (isDigit '+' List.mem_cons_self) (by decide)

theorem read?_plus {digits : List Char} (isDigit : ∀ c ∈ digits, c.isDigit)
    (nonempty : digits ≠ []) : read? ('+' :: digits) = some (value digits) :=
  if_pos ⟨nonempty, List.all_eq_true.mpr isDigit⟩

end Decimal

namespace CommandLine

namespace Numeral
variable (n : Numeral)

theorem isDigit_of_mem_digits : ∀ c ∈ n.digits, c.isDigit := by
  intro c inside
  rcases List.mem_append.mp inside with zero | digit
  · rw [List.eq_of_mem_replicate zero]
    rfl
  · exact Nat.isDigit_of_mem_toDigits (by decide) (by decide) digit

theorem digits_ne_nil : n.digits ≠ [] :=
  List.append_ne_nil_of_right_ne_nil _ Nat.toDigits_ne_nil

theorem value_digits : Decimal.value n.digits = n.value := by
  rw [digits, Decimal.value_replicate_append, Decimal.value_toDigits]

/-- What may stand in front of the digits does not change the number. -/
theorem read?_text : Decimal.read? n.text.toList = some n.value := by
  have isDigit := n.isDigit_of_mem_digits
  have nonempty := n.digits_ne_nil
  rw [text, String.toList_ofList, ← n.value_digits]
  split
  · exact Decimal.read?_plus isDigit nonempty
  · exact Decimal.read?_of_isDigit isDigit nonempty

theorem head?_text {c : Char} (plus : c ≠ '+') (digit : ¬c.isDigit) :
    n.text.toList.head? ≠ some c := by
  rw [text, String.toList_ofList]
  split
  · simpa using plus.symm
  · exact fun first => digit (n.isDigit_of_mem_digits c (List.mem_of_head? first))

theorem toList_text_ne_nil : n.text.toList ≠ [] := by
  rw [text, String.toList_ofList]
  split
  · exact List.cons_ne_nil _ _
  · exact n.digits_ne_nil

end Numeral

namespace Word

theorem takeWhile_of_notMem {name : List Char} (letters : '=' ∉ name) (rest : List Char) :
    (name ++ rest).takeWhile (· != '=') = name ++ rest.takeWhile (· != '=') :=
  List.takeWhile_append_of_pos fun _ inside => bne_iff_ne.mpr fun h => letters (h ▸ inside)

theorem dropWhile_of_notMem {name : List Char} (letters : '=' ∉ name) (rest : List Char) :
    (name ++ rest).dropWhile (· != '=') = rest.dropWhile (· != '=') :=
  List.dropWhile_append_of_pos fun _ inside => bne_iff_ne.mpr fun h => letters (h ▸ inside)

theorem ofChars_dashes {rest : List Char} (nonempty : rest ≠ []) :
    ofChars ('-' :: '-' :: rest) = long (rest.takeWhile (· != '=')) (attachedValue rest) := by
  rw [ofChars]
  exact nonempty

theorem ofChars_long {name : List Char} (letters : '=' ∉ name) (nonempty : name ≠ []) :
    ofChars ('-' :: '-' :: name) = long name none := by
  have before := takeWhile_of_notMem letters []
  have behind := dropWhile_of_notMem letters []
  rw [List.append_nil] at before behind
  rw [ofChars_dashes nonempty, attachedValue, before, behind]
  simp

theorem ofChars_long_equals {name : List Char} (letters : '=' ∉ name) (value : List Char) :
    ofChars ('-' :: '-' :: (name ++ '=' :: value)) = long name (some value) := by
  have before := takeWhile_of_notMem letters ('=' :: value)
  have behind := dropWhile_of_notMem letters ('=' :: value)
  rw [ofChars_dashes (by simp), attachedValue, before, behind]
  simp

theorem ofChars_cluster {letters : List Char} (nonempty : letters ≠ [])
    (head : letters.head? ≠ some '-') : ofChars ('-' :: letters) = cluster letters := by
  cases letters with
  | nil => contradiction
  | cons c rest =>
    unfold ofChars
    split <;> simp_all

theorem ofChars_plain {text : List Char} (h : text.head? ≠ some '-') :
    ofChars text = plain text := by
  unfold ofChars
  split <;> simp_all

end Word

namespace Choice

def switch : Choice → Switch
  | shiftsY => .shiftsY
  | advancesIndex => .advancesIndex
  | clips => .clips

/-- The dialect with the option given. -/
def make : Choice → Dialect → Dialect
  | shiftsY, d => { d with shiftsY := true }
  | advancesIndex, d => { d with advancesIndex := true }
  | clips, d => { d with clips := true }

theorem made_make (c a : Choice) (d : Dialect) : a.made (c.make d) = (c = a || a.made d) := by
  cases c <;> cases a <;> rfl

end Choice

namespace Draft

def value? (d : Draft) : Parameter → Option Nat
  | .scale => d.scale
  | .rate => d.rate
  | .seed => d.seed

def put (d : Draft) (n : Nat) : Parameter → Draft
  | .scale => { d with scale := some n }
  | .rate => { d with rate := some n }
  | .seed => { d with seed := some n }

section Put
variable (d : Draft) (n : Nat) (p : Parameter)

@[simp]
theorem path_put : (d.put n p).path = d.path := by cases p <;> rfl

@[simp]
theorem dialect_put : (d.put n p).dialect = d.dialect := by cases p <;> rfl

@[simp]
theorem verbosity_put : (d.put n p).verbosity = d.verbosity := by cases p <;> rfl

@[simp]
theorem pending_put : (d.put n p).pending = d.pending := by cases p <;> rfl

@[simp]
theorem pathsOnly_put : (d.put n p).pathsOnly = d.pathsOnly := by cases p <;> rfl

theorem value?_put (q : Parameter) :
    (d.put n p).value? q = if p = q then some n else d.value? q := by
  cases p <;> cases q <;> rfl

end Put

theorem number_eq_ok_iff {least most n : Nat} {text : List Char} :
    number least most text = .ok n ↔ Decimal.read? text = some n ∧ least ≤ n ∧ n ≤ most := by
  unfold number
  cases Decimal.read? text with
  | none => simp
  | some m =>
    by_cases inside : least ≤ m ∧ m ≤ most
    · simpa [inside] using fun same => same ▸ inside
    · simp only [inside, ↓reduceIte, reduceCtorEq, Option.some.injEq, false_iff]
      rintro ⟨rfl, bounds⟩
      exact inside bounds

theorem give_eq (d : Draft) (p : Parameter) (text : List Char) :
    d.give p text = if (d.value? p).isSome then .error .repeated
      else (number p.least p.most text).map (d.put · p) := by
  cases p <;> rfl

/-- All that giving a number can do. -/
theorem give_eq_ok_iff {p : Parameter} {text : List Char} {d e : Draft} :
    d.give p text = .ok e ↔
      d.value? p = none ∧
        ∃ n, (Decimal.read? text = some n ∧ p.least ≤ n ∧ n ≤ p.most) ∧ d.put n p = e := by
  rw [give_eq]
  cases d.value? p with
  | some _ => simp
  | none =>
    simp only [← number_eq_ok_iff]
    cases number p.least p.most text <;> simp [Except.map]

/-- All that looking at what is pending can do. -/
theorem of_settle {d e : Draft} (h : d.settle = .ok e) :
    d.pending = .nothing ∧ d = e ∨
      (∃ text, d.pending = .path text ∧ text ≠ [] ∧
        { d with path := some (String.ofList text), pending := .nothing } = e) ∨
      ∃ p text n, d.pending = .parameter p (some text) ∧ d.value? p = none ∧
        (p.least ≤ n ∧ n ≤ p.most) ∧ { d with pending := .nothing }.put n p = e := by
  unfold settle at h
  split at h
  · next pending => exact .inl ⟨pending, Except.ok.inj h⟩
  · exact nomatch h
  · next nonempty pending => exact .inr (.inl ⟨_, pending, nonempty, Except.ok.inj h⟩)
  · exact nomatch h
  · next p text pending =>
    obtain ⟨free, n, ⟨-, bounds⟩, same⟩ := give_eq_ok_iff.mp h
    exact .inr (.inr ⟨p, text, n, pending, by cases p <;> exact free, bounds, same⟩)

theorem settled {d e : Draft} (h : d.settle = .ok e) :
    e.pending = .nothing ∧ e.pathsOnly = d.pathsOnly ∧ d.hasPath = e.path.isSome := by
  obtain ⟨pending, rfl⟩ | ⟨text, pending, -, rfl⟩ | ⟨p, text, n, pending, -, -, rfl⟩ := of_settle h
  · exact ⟨pending, rfl, by simp [hasPath, pending]⟩
  · exact ⟨rfl, rfl, by simp [hasPath, pending]⟩
  · exact ⟨pending_put .., pathsOnly_put .., by simp [hasPath, pending]⟩

/-- Options are still read, and once what is pending is looked at, `e` is what is known. -/
structure Stands (d e : Draft) : Prop where
  optionsToo : d.pathsOnly = false
  settles : d.settle = .ok e

namespace Stands
variable {d e : Draft}

theorem of_pending (optionsToo : e.pathsOnly = false) (pending : e.pending = .nothing) :
    Stands e e := ⟨optionsToo, by simp [settle, pending]⟩

theorem pending (stands : Stands d e) : e.pending = .nothing := (settled stands.settles).1

theorem pathsOnly (stands : Stands d e) : e.pathsOnly = false :=
  (settled stands.settles).2.1.trans stands.optionsToo

theorem right (stands : Stands d e) : Stands e e := of_pending stands.pathsOnly stands.pending

theorem put (stands : Stands d e) (n : Nat) (p : Parameter) : Stands (e.put n p) (e.put n p) :=
  of_pending ((pathsOnly_put ..).trans stands.pathsOnly) ((pending_put ..).trans stands.pending)

end Stands

end Draft

namespace Flag

theorem ofName?_parameter (p : Parameter) : ofName? p.name.toList = some (.parameter p) := by
  rw [ofName?, String.ofList_toList]
  cases p <;> rfl

theorem ofName?_choice (c : Choice) : ofName? c.name.toList = some (.switch c.switch) := by
  rw [ofName?, String.ofList_toList]
  cases c <;> rfl

theorem ofLetter?_parameter {p : Parameter} {c : Char} (named : p.letter? = some c) :
    ofLetter? c = some (.parameter p) := by
  cases p with
  | scale => cases named; rfl
  | rate => cases named; rfl
  | seed => exact nomatch named

end Flag

theorem Parameter.notMem_name (p : Parameter) : '=' ∉ p.name.toList ∧ p.name.toList ≠ [] := by
  cases p <;> decide

theorem Choice.notMem_name (c : Choice) : '=' ∉ c.name.toList ∧ c.name.toList ≠ [] := by
  cases c <;> decide

namespace Draft
variable {d e : Draft}

section Looks
variable {argument : String} (optionsToo : d.pathsOnly = false)
include optionsToo

theorem read_of_long {name : List Char} {attached : Option (List Char)}
    (looks : Word.ofChars argument.toList = .long name attached) :
    d.read argument = d.long name attached := by
  simp [read, optionsToo, looks]

theorem read_of_cluster {letters : List Char}
    (looks : Word.ofChars argument.toList = .cluster letters) :
    d.read argument = d.cluster letters := by
  simp [read, optionsToo, looks]

theorem read_of_plain {text : List Char} (looks : Word.ofChars argument.toList = .plain text) :
    d.read argument = d.plain text := by
  simp [read, optionsToo, looks]

end Looks

theorem long_parameter (d : Draft) (p : Parameter) (attached : Option (List Char)) :
    d.long p.name.toList attached = d.parameter p attached := by
  simp only [long, Flag.ofName?_parameter]

section Cluster
variable {p : Parameter} {c : Char} (named : p.letter? = some c) (d : Draft)
include named

theorem cluster_alone : cluster [c] d = d.parameter p none := by
  simp only [cluster, Flag.ofLetter?_parameter named]

theorem cluster_equals (text : List Char) :
    cluster (c :: '=' :: text) d = d.parameter p (some text) := by
  simp only [cluster, Flag.ofLetter?_parameter named]

theorem cluster_joint {text : List Char} (nonempty : text ≠ []) (head : text.head? ≠ some '=') :
    cluster (c :: text) d = d.parameter p (some text) := by
  simp only [cluster, Flag.ofLetter?_parameter named]
  split <;> simp_all

end Cluster

section Stands
variable (stands : Stands d e)
include stands

theorem parameter_none (p : Parameter) :
    d.parameter p none = .ok { e with pending := .parameter p none } := by
  rw [parameter, stands.settles]
  rfl

theorem parameter_some (p : Parameter) (text : List Char) :
    d.parameter p (some text) = e.give p text := by
  rw [parameter, stands.settles]
  rfl

theorem read_long (p : Parameter) :
    d.read ("--" ++ p.name) = .ok { e with pending := .parameter p none } := by
  have typed : ("--" ++ p.name).toList = '-' :: '-' :: p.name.toList := by simp
  have looks := Word.ofChars_long p.notMem_name.1 p.notMem_name.2
  rw [read_of_long stands.optionsToo (typed ▸ looks), long_parameter, parameter_none stands]

theorem read_long_equals (p : Parameter) (text : String) :
    d.read ("--" ++ p.name ++ "=" ++ text) = e.give p text.toList := by
  have typed : ("--" ++ p.name ++ "=" ++ text).toList =
      '-' :: '-' :: (p.name.toList ++ '=' :: text.toList) := by simp
  have looks := Word.ofChars_long_equals p.notMem_name.1 text.toList
  rw [read_of_long stands.optionsToo (typed ▸ looks), long_parameter, parameter_some stands]

theorem read_switch (name : String) {s : Switch}
    (found : Flag.ofName? name.toList = some (.switch s)) (letters : '=' ∉ name.toList)
    (nonempty : name.toList ≠ []) : d.read ("--" ++ name) = e.turnOn s := by
  have typed : ("--" ++ name).toList = '-' :: '-' :: name.toList := by simp
  have looks := Word.ofChars_long letters nonempty
  rw [read_of_long stands.optionsToo (typed ▸ looks)]
  simp only [long, found, stands.settles]
  rfl

theorem read_path {text : String} (free : e.path = none) (isPath : IsPath text) :
    ∃ f, d.read text = .ok f ∧ Stands f { e with path := some text } := by
  have vacant : d.hasPath = false := by rw [(settled stands.settles).2.2, free]; rfl
  have nonempty : text.toList ≠ [] := fun h => isPath.1 (String.toList_inj.mp h)
  refine ⟨{ e with pending := .path text.toList }, ?_, stands.pathsOnly, ?_⟩
  · rw [read_of_plain stands.optionsToo (Word.ofChars_plain isPath.2), plain]
    split
    -- no option waits for its number, or there would be nothing that the draft stands for
    · next waiting =>
      have settles := stands.settles
      simp [settle, waiting] at settles
    · rw [readPath, vacant, stands.settles]
      rfl
  · obtain ⟨c, rest, chars⟩ := List.exists_cons_of_ne_nil nonempty
    have whole : String.ofList (c :: rest) = text := by rw [← chars, String.ofList_toList]
    simp only [settle, chars, whole, ← stands.pending]

/-- The letters in front of the last one of a cluster each ask for one record more. -/
theorem cluster_verbose (more : Nat) (rest : List Char) :
    ∃ f, cluster (List.replicate more 'v' ++ rest) d = cluster rest f ∧
      Stands f { e with verbosity := e.verbosity + more } := by
  -- the first letter looks at what is pending, and from then on the draft stands for itself
  induction more generalizing d e with
  | zero => exact ⟨d, rfl, stands⟩
  | succ more ih =>
    let next := { e with verbosity := e.verbosity + 1 }
    obtain ⟨f, same, known⟩ := ih (.of_pending (e := next) stands.pathsOnly stands.pending)
    refine ⟨f, ?_, ?_⟩
    · rw [← same, List.replicate_succ, List.cons_append, cluster, stands.settles]
      rfl
    · rwa [Nat.add_comm more 1, ← Nat.add_assoc]

theorem read_verbose (argument : String) (more : Nat) (rest : List Char)
    (typed : argument.toList = '-' :: (List.replicate more 'v' ++ rest))
    (nonempty : List.replicate more 'v' ++ rest ≠ []) (head : rest.head? ≠ some '-') :
    ∃ f, d.read argument = cluster rest f ∧
      Stands f { e with verbosity := e.verbosity + more } := by
  have first : (List.replicate more 'v' ++ rest).head? ≠ some '-' := by
    cases more with
    | zero => exact head
    | succ more => simp [List.replicate_succ]
  have looks := Word.ofChars_cluster nonempty first
  obtain ⟨f, same, known⟩ := cluster_verbose stands more rest
  exact ⟨f, by rw [read_of_cluster stands.optionsToo (typed ▸ looks), same], known⟩

end Stands

section Number
variable {p : Parameter} {n : Numeral} (free : e.value? p = none)
  (inside : p.least ≤ n.value ∧ n.value ≤ p.most)
include free inside

theorem give_text : e.give p n.text.toList = .ok (e.put n.value p) :=
  give_eq_ok_iff.mpr ⟨free, n.value, ⟨n.read?_text, inside⟩, rfl⟩

/-- A number in an argument of its own is looked at later. -/
theorem read_number (known : Stands e e) :
    ∃ d, read { e with pending := .parameter p none } n.text = .ok d ∧
      Stands d (e.put n.value p) := by
  have looks := Word.ofChars_plain (n.head?_text (c := '-') (by decide) (by decide))
  have later : { e with pending := .nothing } = e := by rw [← known.pending]
  refine ⟨{ e with pending := .parameter p (some n.text.toList) }, ?_, known.pathsOnly, ?_⟩
  · rw [read_of_plain (d := { e with pending := .parameter p none }) known.pathsOnly looks]
    rfl
  · change give p n.text.toList { e with pending := .nothing } = _
    rw [later, give_text free inside]

end Number

theorem turnOn_choice {c : Choice} (free : c.made e.dialect = false) :
    e.turnOn c.switch = .ok { e with dialect := c.make e.dialect } := by
  cases c <;> exact if_neg (Bool.not_eq_true _ ▸ free)

end Draft

namespace Piece
open Draft

/-- What is known once a piece has been read. -/
def note (e : Draft) : Piece → Draft
  | path text => { e with path := some text }
  | long p _ n => e.put n.value p
  | short more p _ _ _ n => { e with verbosity := e.verbosity + more }.put n.value p
  | choice c => { e with dialect := c.make e.dialect }
  | verbose others => { e with verbosity := e.verbosity + (others + 1) }
  | verboseLong => { e with verbosity := e.verbosity + 1 }

/-- A piece can be read: it is well written, and what it says is not known. -/
def Fits (e : Draft) : Piece → Prop
  | path text => e.path = none ∧ IsPath text
  | long p _ n | short _ p _ _ _ n => e.value? p = none ∧ p.least ≤ n.value ∧ n.value ≤ p.most
  | choice c => c.made e.dialect = false
  | verbose _ => True
  | verboseLong => True

theorem foldlM_one (a : String) (d : Draft) : [a].foldlM Draft.read d = d.read a := by
  simp

theorem foldlM_two {a b : String} {d f : Draft} (first : d.read a = .ok f) :
    [a, b].foldlM Draft.read d = f.read b := by
  rw [List.foldlM_cons, first]
  exact foldlM_one b f

/-- However a number follows its letter, it is read as the value of the option. -/
theorem read_short {d e : Draft} (stands : Stands d e) {p : Parameter} {c : Char}
    (named : p.letter? = some c) {n : Numeral} (more : Nat) (follows : Attachment)
    (free : e.value? p = none) (inside : p.least ≤ n.value ∧ n.value ≤ p.most) :
    ∃ f, (short more p c named follows n).arguments.foldlM Draft.read d = .ok f ∧
      Stands f ((short more p c named follows n).note e) := by
  let next := { e with verbosity := e.verbosity + more }
  have known : Stands next next := .of_pending stands.pathsOnly stands.pending
  have head : c ≠ '-' := by rintro rfl; cases p <;> exact nomatch named
  have free : next.value? p = none := free
  cases follows with
  | apart =>
    obtain ⟨f, reads, counted⟩ := read_verbose stands
      ("-" ++ String.ofList (List.replicate more 'v' ++ [c])) more [c] (by simp) (by simp)
      (by simpa using head)
    rw [cluster_alone named, parameter_none counted] at reads
    rw [arguments, Attachment.join, foldlM_two reads]
    exact read_number free inside known
  | equals =>
    obtain ⟨f, reads, counted⟩ := read_verbose stands
      ("-" ++ String.ofList (List.replicate more 'v' ++ [c]) ++ "=" ++ n.text) more
      (c :: '=' :: n.text.toList) (by simp) (by simp) (by simpa using head)
    rw [cluster_equals named, parameter_some counted, give_text free inside] at reads
    rw [arguments, Attachment.join, foldlM_one, reads]
    exact ⟨_, rfl, known.put ..⟩
  | joint =>
    obtain ⟨f, reads, counted⟩ := read_verbose stands
      ("-" ++ String.ofList (List.replicate more 'v' ++ [c]) ++ n.text) more
      (c :: n.text.toList) (by simp) (by simp) (by simpa using head)
    have joint := cluster_joint named f n.toList_text_ne_nil
      (n.head?_text (c := '=') (by decide) (by decide))
    rw [joint, parameter_some counted, give_text free inside] at reads
    rw [arguments, Attachment.join, foldlM_one, reads]
    exact ⟨_, rfl, known.put ..⟩

/-- Reading the arguments of a piece notes it. -/
theorem read_arguments {d e : Draft} (stands : Stands d e) {x : Piece} (fits : x.Fits e) :
    ∃ f, x.arguments.foldlM Draft.read d = .ok f ∧ Stands f (x.note e) := by
  have known := stands.right
  cases x with
  | path text =>
    rw [arguments, foldlM_one]
    exact read_path stands fits.1 fits.2
  | long p equals n =>
    obtain ⟨free, inside⟩ := fits
    cases equals with
    | false =>
      rw [arguments, foldlM_two (read_long stands p)]
      exact read_number free inside known
    | true =>
      rw [arguments, foldlM_one, read_long_equals stands, give_text free inside]
      exact ⟨_, rfl, known.put ..⟩
  | short more p c named follows n => exact read_short stands named more follows fits.1 fits.2
  | choice c =>
    have letters := c.notMem_name
    rw [arguments, foldlM_one, read_switch stands _ (Flag.ofName?_choice c) letters.1 letters.2,
      turnOn_choice fits]
    exact ⟨_, rfl, .of_pending stands.pathsOnly stands.pending⟩
  | verbose others =>
    obtain ⟨f, reads, counted⟩ := read_verbose stands
      ("-" ++ String.ofList (List.replicate (others + 1) 'v')) (others + 1) [] (by simp) (by simp)
      (by simp)
    rw [arguments, foldlM_one, reads]
    exact ⟨f, rfl, counted⟩
  | verboseLong =>
    have reads := read_switch stands "verbose" rfl (by decide) (by decide)
    rw [arguments, foldlM_one]
    exact ⟨_, reads, .of_pending stands.pathsOnly stands.pending⟩

end Piece
end CommandLine
end Chip8
