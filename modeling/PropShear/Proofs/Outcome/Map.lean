import PropShear.Proofs.Disk.Outline
import PropShear.Proofs.Edit.Lookup
import PropShear.Proofs.Outcome.Report

/-! What the source map of an outcome describes.

A stripper that makes a source map makes one of what it leaves, and of the text it was given
(`stripWith_map`). When several strippers run, the last map is kept, whoever comes after: so the map
of an outcome describes what the last stripper with maps has left (`ofFile_map`). That is the code
of the outcome if every stripper at work makes maps, but not if one without maps has the last word
(`ofFile_map_stale`). -/
namespace PropShear

open Text (lineFeeds columnAfter)

/-- The character at a line and column of a text. -/
def Text.HoldsAt (text : List Char) (line column : Int) (c : Char) : Prop :=
  ∃ o, text[o]? = some c ∧ line = lineFeeds (text.take o) ∧ column = columnAfter (text.take o)

/-- What starts a text is at its first line and column, and nothing else is. -/
theorem Text.HoldsAt.head {text : List Char} {c : Char}
    (h : Text.HoldsAt text 0 0 c) : text.head? = some c := by
  obtain ⟨k, hk, hline, hcolumn⟩ := h
  have hlt := (List.getElem?_eq_some_iff.mp hk).1
  have hzero : k = 0 := Text.take_position_injective (Nat.le_of_lt hlt) (Nat.zero_le _)
    (Int.ofNat.inj hline).symm (Int.ofNat.inj hcolumn).symm
  rw [List.head?_eq_getElem?, ← hzero]
  exact hk

/-- The map has a line for each line of the code. Every character of the code has a segment of its
own, which leads to the same character in the text that the map carries. -/
structure SourceMap.IsMapOf (m : SourceMap) (code text : String) : Prop where
  content : m.sourcesContent = some [some text]
  describes : ∃ lines, m.segments = .ok lines ∧ lines.length = lineFeeds code.toList + 1 ∧
    ∀ k c, code.toList[k]? = some c → ∃ segment,
      lookup? lines (lineFeeds (code.toList.take k)) (columnAfter (code.toList.take k)) =
        some segment ∧
      segment.column = columnAfter (code.toList.take k) ∧
      Text.HoldsAt text.toList segment.sourceLine segment.sourceColumn c

/-! ### One stripper -/

/-- At high resolution every character of the result has a segment of its own. -/
theorem Editor.isMapOf_sourceMap (e : Editor) (source file : Option String) :
    (e.sourceMap source file true true).IsMapOf (String.ofList e.result)
      (String.ofList e.text) where
  content := rfl
  describes := by
    rw [String.toList_ofList, String.toList_ofList]
    refine ⟨_, e.segments_sourceMap source file true true, (e.describes_trace true).length, ?_⟩
    intro k c hk
    rw [← before_size] at hk ⊢
    obtain ⟨o, -, hkeeps, hc, hbefore⟩ := exists_origin e.size (Nat.le_refl _) hk
    have htraces : e.traces true o = true := by
      rw [traces, if_pos hkeeps]
      rfl
    have hlookup := (e.describes_trace true).lookup?_anchor hkeeps (anchors_self htraces)
    rw [hbefore] at hlookup
    refine ⟨_, hlookup, ?_, o, hc, rfl, rfl⟩
    rw [← hbefore]
    rfl

namespace Stripper

/-- A stripper makes a map exactly if its settings ask for one, and it is a map of what is left. -/
theorem stripWith_map {s : Stripper} {parse : Parser} {code id : String} {made : Stripped}
    (h : s.stripWith parse code id = .ok (some made)) :
    s.settings.sourceMap = false ∧ made.map = none ∨
      s.settings.sourceMap = true ∧ ∃ m, made.map = some m ∧ m.IsMapOf made.code code := by
  obtain ⟨removals, e, hnotes, rfl⟩ := stripWith_cases h
  cases hmap : s.settings.sourceMap with
  | false => exact .inl ⟨rfl, rfl⟩
  | true =>
    rw [hmap, edited_eq_calls] at hnotes
    have htext := (Editor.calls_records hnotes).sameText
    have hmade := e.isMapOf_sourceMap (some id) (some id)
    rw [htext, String.ofList_toList] at hmade
    exact .inr ⟨rfl, _, rfl, hmade⟩

end Stripper

/-! ### Several strippers -/

namespace Outcome

/-- One stripper has made a map of what it left. Those before it have led to the text it was given,
and those after it make no maps. -/
structure MapStep (parse : Parser) (id source code : String) (m : SourceMap)
    (before : List Stripper) (s : Stripper) (after : List Stripper) (text : String)
    (made : Stripped) : Prop where
  first : Runs parse id before source (.ok text)
  makes : s.stripWith parse text id = .ok (some made)
  map : made.map = some m
  plain : ∀ t ∈ after, t.filter.isEligible id.toList = true → t.settings.sourceMap = false
  rest : Runs parse id after made.code (.ok code)

/-- The map that strippers end with is the one they started with, if none makes maps, or the one of
the last that does. -/
theorem map_runStrippers {parse : Parser} (htiled : parse.Tiled) {path : Path} {id : String}
    {strippers : List Stripper} {p last : Progress}
    (h : runStrippers parse path id strippers p = (last, none)) :
    (last.map = p.map ∧ ∀ t ∈ strippers, t.filter.isEligible id.toList = true →
      t.settings.sourceMap = false) ∨
    ∃ m before s after text made, last.map = some m ∧ strippers = before ++ s :: after ∧
      MapStep parse id p.code last.code m before s after text made := by
  induction strippers generalizing p with
  | nil =>
    cases h
    exact .inl ⟨rfl, nofun⟩
  | cons s rest ih =>
    have hmakes := s.stripWith_makes htiled id p.code
    unfold runStrippers at h
    cases hstrip : s.stripWith parse p.code id with
    | error e =>
      rw [hstrip] at h
      cases h
    | ok result =>
      rw [hstrip] at h hmakes
      cases result with
      | none =>
        rcases ih h with ⟨hlast, hplain⟩ | ⟨m, before, t, after, text, made, hlast, hsplit, hstep⟩
        · refine .inl ⟨hlast, List.forall_mem_cons.mpr ⟨fun heligible => ?_, hplain⟩⟩
          cases hmakes with
          | nothing hskip =>
            rw [hskip] at heligible
            cases heligible
        · refine .inr ⟨m, s :: before, t, after, text, made, hlast, congrArg (s :: ·) hsplit, ?_⟩
          exact { hstep with first := .skip hmakes hstep.first }
      | some made =>
        rcases ih h with ⟨hlast, hplain⟩ | ⟨m, before, t, after, text, more, hlast, hsplit, hstep⟩
        · rcases Stripper.stripWith_map hstrip with ⟨hoff, hnone⟩ | ⟨hon, m, hsome, -⟩
          · refine .inl ⟨?_, List.forall_mem_cons.mpr ⟨fun _ => hoff, hplain⟩⟩
            rw [hlast]
            show (made.map <|> p.map) = p.map
            rw [hnone]
            rfl
          · refine .inr ⟨m, [], s, rest, p.code, made, ?_, rfl, .done, hstrip, hsome, hplain, ?_⟩
            · rw [hlast]
              show (made.map <|> p.map) = some m
              rw [hsome]
              rfl
            · exact runs_of_runStrippers htiled h
        · refine .inr ⟨m, s :: before, t, after, text, more, hlast, congrArg (s :: ·) hsplit, ?_⟩
          exact { hstep with first := .cut hmakes hstep.first }

/-- Strippers that do not find a file eligible leave its text alone. -/
theorem Runs.eq_of_skips {parse : Parser} {id code left : String} {strippers : List Stripper}
    (h : Runs parse id strippers code (.ok left))
    (hskip : ∀ t ∈ strippers, t.filter.isEligible id.toList = false) : left = code := by
  induction strippers generalizing code with
  | nil =>
    cases h
    rfl
  | cons s rest ih =>
    rw [List.forall_mem_cons] at hskip
    cases h with
    | skip hmakes hrest => exact ih hrest hskip.2
    | cut hmakes hrest =>
      cases hmakes with
      | cut heligible =>
        rw [hskip.1] at heligible
        cases heligible

/-- **The source map of an outcome is the last that was made**: it maps what its stripper left, to
the text that this stripper was given. Strippers that come later make no maps. If all strippers that
find the file eligible make maps, there are no later ones at work, and the map describes the code of
the outcome. Trees have no links, so the id of a file is its path with the dots collapsed. -/
theorem ofFile_map {parse : Parser} (htiled : parse.Tiled) {strippers : List Stripper} {d : Disk}
    {path : Path} {o : Outcome} {m : SourceMap}
    (h : (ofFile parse strippers d path).1 = .ok o) (hmap : o.map = some m) :
    let id := (d.resolve path).shown
    ∃ before s after text made, strippers = before ++ s :: after ∧
      MapStep parse id o.source o.code m before s after text made ∧ m.IsMapOf made.code text ∧
      ((∀ t ∈ strippers, t.filter.isEligible id.toList = true → t.settings.sourceMap = true) →
        m.IsMapOf o.code text) := by
  intro id
  rcases ofFile_eq_ok h with ⟨-, hnone⟩ | ⟨source, last, -, hrun, rfl⟩
  · cases hnone.symm.trans hmap
  rcases map_runStrippers htiled hrun with
    ⟨hnone, -⟩ | ⟨m', before, s, after, text, made, hlast, hsplit, hstep⟩
  · cases hnone.symm.trans hmap
  · cases hlast.symm.trans hmap
    have hmade : m.IsMapOf made.code text := by
      rcases Stripper.stripWith_map hstep.makes with ⟨-, hnone⟩ | ⟨-, m', hsome, hdescribes⟩
      · cases hnone.symm.trans hstep.map
      · cases hsome.symm.trans hstep.map
        exact hdescribes
    refine ⟨before, s, after, text, made, hsplit, hstep, hmade, fun hall => ?_⟩
    -- whoever comes later and is at work would have made a map of its own
    have hskip : ∀ t ∈ after, t.filter.isEligible id.toList = false := by
      intro t ht
      cases heligible : t.filter.isEligible id.toList with
      | false => rfl
      | true =>
        have hon := hall t (by rw [hsplit]; simp [ht]) heligible
        rw [hstep.plain t ht heligible] at hon
        cases hon
    show m.IsMapOf last.code text
    rw [hstep.rest.eq_of_skips hskip]
    exact hmade

/-- A stripper that tracks one module in every file and makes maps. -/
def mapping (m : String) : Stripper := ⟨"strip", ⟨[], [], [m], true⟩, ⟨[], []⟩⟩

/-- A file that imports two modules. -/
def importsDisk : Disk := .flat [("a.jsx", "import 'q'\nimport 'p'\nx")]

/-- Two strippers with maps: the second map is of what both have left. -/
theorem ofFile_map_both : ∃ o m text,
    (ofFile parseSource [mapping "p", mapping "q"] importsDisk ⟨0, ["a.jsx".toList]⟩).1 = .ok o ∧
      o.code = "\n\nx" ∧ o.map = some m ∧ m.IsMapOf o.code text := by
  obtain ⟨o, ho, hfacts⟩ := exists_ok
    (x := (ofFile parseSource [mapping "p", mapping "q"] importsDisk ⟨0, ["a.jsx".toList]⟩).1)
    (p := fun o => o.code = "\n\nx" && o.map.isSome) (by decide +kernel)
  rw [Bool.and_eq_true, decide_eq_true_eq] at hfacts
  obtain ⟨m, hm⟩ := Option.isSome_iff_exists.mp hfacts.2
  obtain ⟨-, -, -, text, -, -, -, -, hdescribes⟩ := ofFile_map parseSource_tiled ho hm
  refine ⟨o, m, text, ho, hfacts.1, hm, hdescribes ?_⟩
  intro t ht heligible
  rcases List.mem_cons.mp ht with hfirst | hsecond
  · rw [hfirst]
    rfl
  · rw [List.mem_singleton.mp hsecond]
    rfl

/-- A stripper without maps after one with maps: the map is kept, but leads from the line feed that
starts the code to the import that was in front of it. -/
theorem ofFile_map_stale : ∃ o m,
    (ofFile parseSource [mapping "p", .tracking "q"] importsDisk ⟨0, ["a.jsx".toList]⟩).1 = .ok o ∧
      o.code = "\n\nx" ∧ o.map = some m ∧ ¬ ∃ text, m.IsMapOf o.code text := by
  obtain ⟨o, ho, hfacts⟩ := exists_ok
    (x := (ofFile parseSource [mapping "p", .tracking "q"] importsDisk ⟨0, ["a.jsx".toList]⟩).1)
    (p := fun o => o.code = "\n\nx" && o.map.any fun m =>
      m.sourcesContent = some [some "import 'q'\nimport 'p'\nx"] && m.segments.toOption.any
        fun lines => (SourceMap.lookup? lines 0 0).any fun s =>
          s.sourceLine = 0 && s.sourceColumn = 0) (by decide +kernel)
  rw [Bool.and_eq_true, decide_eq_true_eq, Option.any_eq_true] at hfacts
  obtain ⟨hcode, m, hm, hfacts⟩ := hfacts
  rw [Bool.and_eq_true, decide_eq_true_eq] at hfacts
  obtain ⟨lines, hlines, hfirst⟩ := exists_ok hfacts.2
  refine ⟨o, m, ho, hcode, hm, fun hmapOf => ?_⟩
  obtain ⟨text, hcontent, lines', hlines', -, hlookup⟩ := hmapOf
  cases hlines.symm.trans hlines'
  cases hfacts.1.symm.trans hcontent
  obtain ⟨segment, hsegment, -, hholds⟩ := hlookup 0 '\n' (by rw [hcode]; rfl)
  change SourceMap.lookup? lines 0 0 = some segment at hsegment
  rw [hsegment] at hfirst
  have hposition : segment.sourceLine = 0 ∧ segment.sourceColumn = 0 := by simpa using hfirst
  rw [hposition.1, hposition.2] at hholds
  cases hholds.head

end Outcome
end PropShear
