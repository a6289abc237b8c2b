import PropShear.Outcome.Basic
import PropShear.Proofs.Disk.Outline
import PropShear.Proofs.Grammar.Program
import PropShear.Proofs.Splice

/-! What a run makes of one file.

A stripper leaves a text alone, cuts bytes out of it, finds that it is no program, or meets an
escape that names too large a number; nothing else can happen, if whatever the parser accepts has a
tiled tree (`Stripper.stripWith_makes`). `Runs` follows a text through several strippers, and
`Reported` says what its outcome tells of that (`ofFile_reported`). -/
namespace PropShear

/-- Whatever a parser accepts has a tiled tree. -/
def Parser.Tiled (parse : Parser) : Prop :=
  ∀ ⦃path source root⦄, parse path source = .ok root → root.Tiled source

theorem checkTree_eq_ok {root made : Node} {path : String} {source : List Char}
    (h : checkTree root path source = .ok made) : made = root := by
  unfold checkTree at h
  split at h
  · cases h
  · cases h
    rfl

theorem parseSource_tiled : Parser.Tiled parseSource := by
  intro path source root h
  unfold parseSource at h
  split at h
  · next hparse =>
    rw [checkTree_eq_ok h]
    exact Grammar.parse?_tiled hparse
  · cases h

/-! ### One stripper -/

namespace Stripper

/-- What a stripper may make of a text. -/
inductive Makes (parse : Parser) (s : Stripper) (id code : String) :
    Except Error (Option Stripped) → Prop
  | nothing (hskip : s.filter.isEligible id.toList = false) : Makes parse s id code (.ok none)
  | cut {root : Node} {stripped : Stripped} (heligible : s.filter.isEligible id.toList = true)
      (hparse : parse id code.toList = .ok root)
      (hfind : Removal.find code.toList s.settings.modules root = .ok stripped.removals)
      (hleft : Text.Utf8.encode stripped.code.toList =
        Text.survivors (Removal.gone stripped.removals) (Text.Utf8.encode code.toList)) :
    Makes parse s id code (.ok (some stripped))
  | unparsed {e : SyntaxError} (heligible : s.filter.isEligible id.toList = true)
      (hparse : parse id code.toList = .error e) : Makes parse s id code (.error (.syntaxError e))
  | overflow {root : Node} (heligible : s.filter.isEligible id.toList = true)
      (hparse : parse id code.toList = .ok root)
      (hfind : Removal.find code.toList s.settings.modules root = .error .escapeTooLarge)
      (hlarge : root.Overflows code.toList) :
    Makes parse s id code (.error (.fault .escapeTooLarge))

theorem stripWith_makes {parse : Parser} (htiled : parse.Tiled) (s : Stripper) (id code : String) :
    s.Makes parse id code (s.stripWith parse code id) := by
  cases heligible : s.filter.isEligible id.toList with
  | false =>
    rw [stripWith, heligible]
    exact .nothing heligible
  | true =>
    cases hparse : parse id code.toList with
    | error e =>
      rw [stripWith_error s heligible hparse]
      exact .unparsed heligible hparse
    | ok root =>
      have ht : root.Tiled code.toList := htiled hparse
      cases hfind : Removal.find code.toList s.settings.modules root with
      | error e =>
        obtain ⟨rfl, hlarge⟩ := Removal.find_errs s.settings.modules ht e hfind
        rw [stripWith_fault s heligible hparse hfind]
        exact .overflow heligible hparse hfind hlarge
      | ok removals =>
        obtain ⟨stripped, hstrip, rfl, hleft, -⟩ := stripTree_ok s code id ht hfind
        rw [stripWith_eq s heligible hparse hstrip]
        exact .cut heligible hparse hfind hleft

/-- Exactly the files that are eligible are stripped. -/
theorem eligible_of_stripWith {parse : Parser} {s : Stripper} {code id : String}
    {made : Option Stripped} (h : s.stripWith parse code id = .ok made) :
    s.filter.isEligible id.toList = made.isSome := by
  unfold stripWith at h
  cases heligible : s.filter.isEligible id.toList with
  | false =>
    rw [heligible] at h
    cases h
    rfl
  | true =>
    rw [heligible] at h
    obtain ⟨root, -, h⟩ := bind_eq_ok h
    obtain ⟨stripped, -, h⟩ := bind_eq_ok h
    cases h
    rfl

end Stripper

/-! ### Several strippers -/

namespace Outcome

/-- A text runs through strippers: each takes what the one before left, until one of them fails. -/
inductive Runs (parse : Parser) (id : String) :
    List Stripper → String → Except Stripper.Error String → Prop
  | done {code : String} : Runs parse id [] code (.ok code)
  | skip {s : Stripper} {rest : List Stripper} {code : String}
      {result : Except Stripper.Error String} (hmakes : s.Makes parse id code (.ok none))
      (hrest : Runs parse id rest code result) : Runs parse id (s :: rest) code result
  | cut {s : Stripper} {rest : List Stripper} {code : String} {stripped : Stripped}
      {result : Except Stripper.Error String} (hmakes : s.Makes parse id code (.ok (some stripped)))
      (hrest : Runs parse id rest stripped.code result) : Runs parse id (s :: rest) code result
  | stop {s : Stripper} {rest : List Stripper} {code : String} {e : Stripper.Error}
      (hmakes : s.Makes parse id code (.error e)) : Runs parse id (s :: rest) code (.error e)

/-- The text that strippers leave, or why there is none. -/
def verdict : Progress × Option Stripper.Error → Except Stripper.Error String
  | (p, none) => .ok p.code
  | (_, some e) => .error e

section Tiled

variable {parse : Parser} (htiled : parse.Tiled)
include htiled

theorem runStrippers_runs (path : Path) (id : String) (strippers : List Stripper) (p : Progress) :
    Runs parse id strippers p.code (verdict (runStrippers parse path id strippers p)) := by
  induction strippers generalizing p with
  | nil => exact .done
  | cons s rest ih =>
    have hmakes := s.stripWith_makes htiled id p.code
    unfold runStrippers
    cases hstrip : s.stripWith parse p.code id with
    | error e =>
      rw [hstrip] at hmakes
      exact .stop hmakes
    | ok made =>
      rw [hstrip] at hmakes
      cases made with
      | none => exact .skip hmakes (ih p)
      | some stripped => exact .cut hmakes (ih (p.add path id stripped))

theorem runs_of_runStrippers {path : Path} {id : String} {strippers : List Stripper}
    {p last : Progress} (h : runStrippers parse path id strippers p = (last, none)) :
    Runs parse id strippers p.code (.ok last.code) := by
  have hruns := runStrippers_runs htiled path id strippers p
  rw [h] at hruns
  exact hruns

end Tiled

/-- A file is touched exactly if a stripper finds it eligible. -/
theorem touched_runStrippers {parse : Parser} (path : Path) (id : String)
    (strippers : List Stripper) (p : Progress) {last : Progress}
    (h : runStrippers parse path id strippers p = (last, none)) :
    last.touched = (p.touched || strippers.any (·.filter.isEligible id.toList)) := by
  induction strippers generalizing p with
  | nil =>
    cases h
    rw [List.any_nil, Bool.or_false]
  | cons s rest ih =>
    unfold runStrippers at h
    cases hstrip : s.stripWith parse p.code id with
    | error e =>
      rw [hstrip] at h
      cases h
    | ok made =>
      have heligible := Stripper.eligible_of_stripWith hstrip
      rw [hstrip] at h
      rw [List.any_cons, heligible]
      cases made with
      | none => rw [ih p h, Option.isSome_none, Bool.false_or]
      | some stripped =>
        rw [ih _ h]
        simp [Progress.add]

/-! ### The outcome of a file -/

/-- What strippers make of a text decides its status. -/
def statusOf (id : String) (strippers : List Stripper) (source code : String) : Status :=
  if strippers.any (·.filter.isEligible id.toList) then
    if code = source then .unchanged else .stripped
  else .skipped

/-- What may be reported of a file. One that cannot be read or is no program fails with an error,
and one that all strippers accept does not fail. Two things go unreported: a path that cannot be
resolved, and an escape that is too large. -/
inductive Reported (parse : Parser) (strippers : List Stripper) (d : Disk) (path : Path) :
    Except Crash Outcome → Prop
  | lost {e : Disk.Error} (hid : d.resolve? path = .error e) :
    Reported parse strippers d path (.error (.path e))
  | unreadable {e : Disk.ReadError} (hid : d.resolve? path = .ok (d.resolve path))
      (hread : d.readText path = .error e) :
    Reported parse strippers d path (.ok (failure path "" ("read_error: " ++ e.message)))
  | rejected {source : String} {e : SyntaxError} (hid : d.resolve? path = .ok (d.resolve path))
      (hread : d.readText path = .ok source)
      (hruns : Runs parse (d.resolve path).shown strippers source (.error (.syntaxError e))) :
    Reported parse strippers d path (.ok (failure path source e.message))
  | accepted {o : Outcome} (hid : d.resolve? path = .ok (d.resolve path))
      (hread : d.readText path = .ok o.source)
      (hruns : Runs parse (d.resolve path).shown strippers o.source (.ok o.code))
      (hpath : o.path = path)
      (hstatus : o.status = statusOf (d.resolve path).shown strippers o.source o.code)
      (herror : o.error = none) : Reported parse strippers d path (.ok o)
  | overflow {source : String} (hid : d.resolve? path = .ok (d.resolve path))
      (hread : d.readText path = .ok source)
      (hruns : Runs parse (d.resolve path).shown strippers source
        (.error (.fault .escapeTooLarge))) :
    Reported parse strippers d path (.error (.fault .escapeTooLarge))

/-- A run fails at a text that is no program or at an escape that is too large. -/
theorem Runs.error_cases {parse : Parser} {id code : String} {strippers : List Stripper}
    {e : Stripper.Error} (h : Runs parse id strippers code (.error e)) :
    (∃ error, e = .syntaxError error) ∨ e = .fault .escapeTooLarge := by
  generalize hresult : Except.error e = result at h
  induction h with
  | done => cases hresult
  | skip _ _ ih => exact ih hresult
  | cut _ _ ih => exact ih hresult
  | stop hmakes =>
    cases hresult
    cases hmakes with
    | unparsed => exact .inl ⟨_, rfl⟩
    | overflow => exact .inr rfl

theorem status_finish (path : Path) {id source : String} {strippers : List Stripper}
    {last : Progress} (h : last.touched = strippers.any (·.filter.isEligible id.toList)) :
    (finish path source last).status = statusOf id strippers source last.code := by
  rw [finish, statusOf, ← h]
  cases last.touched with
  | false => rfl
  | true => simp only [Bool.not_true, Bool.false_eq_true, if_false, if_true, ne_eq, ite_not]

theorem ofFile_lost {parse : Parser} {strippers : List Stripper} {d : Disk} {path : Path}
    {e : Disk.Error} (h : d.resolve? path = .error e) :
    ofFile parse strippers d path = (.error (.path e), []) := by
  rw [ofFile, h]

theorem ofFile_unreadable {parse : Parser} {strippers : List Stripper} {d : Disk} {path : Path}
    {e : Disk.ReadError} (hid : d.resolve? path = .ok (d.resolve path))
    (hread : d.readText path = .error e) :
    (ofFile parse strippers d path).1 =
      .ok (failure path "" ("read_error: " ++ e.message)) := by
  rw [ofFile, hid]
  dsimp only
  rw [hread]

theorem ofFile_of_text {parse : Parser} {strippers : List Stripper} {d : Disk} {path : Path}
    {source : String} (hid : d.resolve? path = .ok (d.resolve path))
    (hread : d.readText path = .ok source) :
    ofFile parse strippers d path = ofText parse strippers path (d.resolve path).shown source := by
  rw [ofFile, hid]
  dsimp only
  rw [hread]

theorem ofFile_reported {parse : Parser} (htiled : parse.Tiled) (strippers : List Stripper)
    (d : Disk) (path : Path) :
    Reported parse strippers d path (ofFile parse strippers d path).1 := by
  rcases d.resolve?_cases path with ⟨e, he⟩ | hid
  · rw [ofFile_lost he]
    exact .lost he
  cases hread : d.readText path with
  | error e =>
    rw [ofFile_unreadable hid hread]
    exact .unreadable hid hread
  | ok source =>
    rw [ofFile_of_text hid hread]
    unfold ofText
    have hruns := runStrippers_runs htiled path (d.resolve path).shown strippers
      ⟨source, none, 0, false, []⟩
    rcases hran : runStrippers parse path (d.resolve path).shown strippers
      ⟨source, none, 0, false, []⟩ with ⟨last, stopped⟩
    rw [hran] at hruns
    cases stopped with
    | none =>
      exact .accepted hid hread hruns rfl
        (status_finish path (touched_runStrippers path _ strippers _ hran)) rfl
    | some e =>
      rcases hruns.error_cases with ⟨error, rfl⟩ | rfl
      · exact .rejected hid hread hruns
      · exact .overflow hid hread hruns

/-- An outcome is a failure, or comes from strippers that all accept the text of the file. -/
theorem ofFile_eq_ok {parse : Parser} {strippers : List Stripper} {d : Disk} {path : Path}
    {o : Outcome} (h : (ofFile parse strippers d path).1 = .ok o) :
    o.status = .failed ∧ o.map = none ∨
      ∃ source last, d.readText path = .ok source ∧
        runStrippers parse path (d.resolve path).shown strippers ⟨source, none, 0, false, []⟩ =
          (last, none) ∧ o = finish path source last := by
  rcases d.resolve?_cases path with ⟨e, he⟩ | hid
  · rw [ofFile_lost he] at h
    cases h
  cases hread : d.readText path with
  | error e =>
    rw [ofFile_unreadable hid hread] at h
    cases h
    exact .inl ⟨rfl, rfl⟩
  | ok source =>
    rw [ofFile_of_text hid hread] at h
    unfold ofText at h
    split at h
    · next last hrun =>
      cases h
      exact .inr ⟨source, last, rfl, hrun, rfl⟩
    · cases h
      exact .inl ⟨rfl, rfl⟩
    · cases h
    · cases h

end Outcome
end PropShear
