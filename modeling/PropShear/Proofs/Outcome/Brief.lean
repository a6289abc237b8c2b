import PropShear.Proofs.Options.Override
import PropShear.Proofs.Outcome.Report

/-! What an outcome tells apart from source maps.

Asking for source maps puts marks into the editor, but the same spans are deleted (`edited_agree`).
So strippers with and without source maps make the same of a file (`Stripper.Matches`), and the
outcomes of a file differ in the map at most, with the same log (`ofFile_matches`). -/
namespace PropShear

/-! ### Strippers -/

/-- A result without its source map. -/
def Stripped.plain (r : Stripped) : Stripped := { r with map := none }

namespace Stripper

/-- Two strippers make the same of every text, apart from source maps. -/
def Matches (parse : Parser) (s s' : Stripper) : Prop := ∀ code id,
  (s'.stripWith parse code id).map (Option.map Stripped.plain) =
    (s.stripWith parse code id).map (Option.map Stripped.plain)

theorem Matches.refl (parse : Parser) (s : Stripper) : s.Matches parse s := fun _ _ => rfl

theorem Matches.cases {parse : Parser} {s s' : Stripper} (h : s.Matches parse s')
    (code id : String) :
    (∃ e, s.stripWith parse code id = .error e ∧ s'.stripWith parse code id = .error e) ∨
      s.stripWith parse code id = .ok none ∧ s'.stripWith parse code id = .ok none ∨
      ∃ r r', s.stripWith parse code id = .ok (some r) ∧
        s'.stripWith parse code id = .ok (some r') ∧ r'.plain = r.plain := by
  have hsame := h code id
  generalize s.stripWith parse code id = made at hsame ⊢
  generalize s'.stripWith parse code id = made' at hsame ⊢
  rcases made with e | _ | r
  · rcases made' with e' | result
    · cases hsame
      exact .inl ⟨e, rfl, rfl⟩
    · cases hsame
  · rcases made' with e' | _ | r'
    · cases hsame
    · exact .inr (.inl ⟨rfl, rfl⟩)
    · cases hsame
  · rcases made' with e' | _ | r'
    · cases hsame
    · cases hsame
    · injection hsame with hsome
      injection hsome with hplain
      exact .inr (.inr ⟨r, r', rfl, rfl, hplain⟩)

/-- With and without marks the same is deleted. -/
theorem edited_agree (marked marked' : Bool) {source : List Char} {removals : List Removal}
    (hfits : ∀ r ∈ removals, r.Fits source) : ∃ e e' : Editor,
      edited marked source removals = .ok e ∧ edited marked' source removals = .ok e' ∧
      e'.result = e.result ∧ e'.removed = e.removed := by
  obtain ⟨e, hrun, htext, hdeleted⟩ := edited_ok marked hfits
  obtain ⟨e', hrun', htext', hdeleted'⟩ := edited_ok marked' hfits
  have hremoved : e'.removed = e.removed := by
    rw [Editor.removed, Editor.removed, hdeleted, hdeleted']
  refine ⟨e, e', hrun, hrun', ?_, hremoved⟩
  rw [Editor.result_eq, Editor.result_eq, hremoved, htext, htext']

theorem matches_withMap {parse : Parser} (htiled : parse.Tiled) (s : Stripper) :
    s.Matches parse s.withMap := by
  intro code id
  cases heligible : s.filter.isEligible id.toList with
  | false =>
    have heligible' : s.withMap.filter.isEligible id.toList = false := heligible
    rw [stripWith, stripWith, heligible, heligible']
    rfl
  | true =>
    cases hparse : parse id code.toList with
    | error e =>
      rw [stripWith_error s heligible hparse, stripWith_error s.withMap heligible hparse]
    | ok root =>
      cases hfind : Removal.find code.toList s.settings.modules root with
      | error e =>
        rw [stripWith_fault s heligible hparse hfind,
          stripWith_fault s.withMap heligible hparse hfind]
      | ok removals =>
        obtain ⟨e, e', hrun, hrun', hresult, hremoved⟩ :=
          edited_agree s.settings.sourceMap true fun r hr =>
            Removal.find_fits (htiled hparse) hfind hr
        have hplain : s.stripTree root code id = _ := stripTree_eq s hfind hrun
        have hmapped : s.withMap.stripTree root code id = _ := stripTree_eq s.withMap hfind hrun'
        rw [stripWith_eq s heligible hparse hplain,
          stripWith_eq s.withMap heligible hparse hmapped, hresult, hremoved]
        rfl

end Stripper

/-! ### Outcomes -/

namespace Outcome

/-- What an outcome tells, but for the text of the file and the source map. -/
def brief (o : Outcome) : Path × Status × String × Nat × Option String :=
  (o.path, o.status, o.code, o.removed, o.error)

variable {s s' : Stripper} {d d' : Disk} {path : Path}

/-- Strippers that match give outcomes that differ in the source map at most. -/
theorem ofText_matches {parse : Parser} (h : s.Matches parse s') (path : Path)
    (id source : String) :
    (ofText parse [s'] path id source).2 = (ofText parse [s] path id source).2 ∧
      (ofText parse [s'] path id source).1.map brief =
        (ofText parse [s] path id source).1.map brief := by
  unfold ofText
  dsimp only [runStrippers]
  rcases h.cases source id with
    ⟨e, hstrip, hstrip'⟩ | ⟨hstrip, hstrip'⟩ | ⟨r, r', hstrip, hstrip', hplain⟩
  · rw [hstrip, hstrip']
    cases e with
    | syntaxError e => exact ⟨rfl, rfl⟩
    | fault f => exact ⟨rfl, rfl⟩
    | edit e => exact ⟨rfl, rfl⟩
  · rw [hstrip, hstrip']
    exact ⟨rfl, rfl⟩
  · rw [hstrip, hstrip']
    obtain ⟨code, removals, removed, map⟩ := r
    obtain ⟨code', removals', removed', map'⟩ := r'
    cases hplain
    -- there is no earlier map, so nothing is said about several of them
    simp only [Progress.add, Option.isSome_none, Bool.and_false]
    exact ⟨rfl, rfl⟩

theorem ofFile_matches {parse : Parser} (h : s.Matches parse s')
    (hread : d'.readText path = d.readText path) (hresolve : d'.resolve? path = d.resolve? path) :
    (ofFile parse [s'] d' path).2 = (ofFile parse [s] d path).2 ∧
      (ofFile parse [s'] d' path).1.map brief = (ofFile parse [s] d path).1.map brief := by
  unfold ofFile
  rw [hread, hresolve]
  cases d.resolve? path with
  | error e => exact ⟨rfl, rfl⟩
  | ok id =>
    cases d.readText path with
    | error e => exact ⟨rfl, rfl⟩
    | ok source => exact ofText_matches h path id.shown source

end Outcome
end PropShear
