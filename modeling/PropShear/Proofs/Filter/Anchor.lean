import PropShear.Options.Settings
import PropShear.Proofs.Filter.Eligibility
import PropShear.Proofs.Glob.Escape

/-! Relative globs and the directory they are anchored at.

A path below a directory is the text of the directory, a slash and the rest (`beneath`), for paths
as for patterns: the slash is joined once (`joinText_toText`), the escaped names of the directory
are names of the pattern like its own (`escape_toText`), and none of them leads up, so collapsing
leaves them alone (`collapseText_anchored`). The escaped directory stands for itself, so the pattern
matches what is below the directory and matches the glob there. -/
namespace PropShear

/-! ### Below a directory -/

namespace Path

/-- The text of a path below a directory. A single slash stands between the two; the root directory
has it already. -/
def beneath (directory rest : List Char) : List Char :=
  if directory.getLast? = some '/' then directory ++ rest else directory ++ '/' :: rest

example : beneath "/src".toList "a.jsx".toList = "/src/a.jsx".toList ∧
    beneath "/".toList "a.jsx".toList = "/a.jsx".toList := by decide

/-- The text names a directory by its absolute, collapsed path. -/
structure IsDirectory (s : List Char) : Prop where
  absolute : s.head? = some '/'
  collapsed : collapseText s = s
  forward : '\\' ∉ s

/-- What comes between the text of a path and the first name below it. -/
def link (p : Path) : List Char := if p.names = [] then [] else ['/']

variable {p : Path} {s : List Char} {names : List (List Char)}

theorem toText_absolute (h : p.isAbsolute = true) :
    p.toText = List.replicate p.root '/' ++ Text.joined ['/'] p.names := by
  have hroot : p.root ≠ 0 := Nat.ne_of_gt (of_decide_eq_true h)
  exact toText_eq (List.append_ne_nil_of_left_ne_nil (by simpa using hroot) _)

theorem getLast?_joined_ne (h : ∀ name ∈ names, name ≠ [] ∧ '/' ∉ name) (hne : names ≠ []) :
    ∃ c, (Text.joined ['/'] names).getLast? = some c ∧ c ≠ '/' := by
  induction names with
  | nil => exact absurd rfl hne
  | cons name more ih =>
    rw [List.forall_mem_cons] at h
    by_cases hmore : more = []
    · subst hmore
      refine ⟨name.getLast h.1.1, List.getLast?_eq_some_getLast h.1.1, fun heq => ?_⟩
      exact h.1.2 (heq ▸ List.getLast_mem h.1.1)
    · obtain ⟨c, hc, hslash⟩ := ih h.2 hmore
      refine ⟨c, ?_, hslash⟩
      rw [Text.joined_cons hmore, List.getLast?_append, hc]
      rfl

theorem Readable.getLast?_toText (h : p.Readable) (habsolute : p.isAbsolute = true) :
    p.toText.getLast? = some '/' ↔ p.names = [] := by
  have hroot : p.root ≠ 0 := Nat.ne_of_gt (of_decide_eq_true habsolute)
  rw [toText_absolute habsolute, List.getLast?_append]
  constructor
  · intro hlast
    apply Decidable.byContradiction
    intro hne
    obtain ⟨c, hc, hslash⟩ := getLast?_joined_ne
      (fun name hname => ⟨ne_nil_of_isName (h.isName name hname), h.slash name hname⟩) hne
    rw [hc] at hlast
    exact hslash (Option.some.inj hlast)
  · intro hnames
    rw [hnames]
    simp [Text.joined, List.getLast?_replicate, hroot]

theorem Readable.beneath_toText (h : p.Readable) (habsolute : p.isAbsolute = true)
    (rest : List Char) : beneath p.toText rest = p.toText ++ (p.link ++ rest) := by
  unfold beneath link
  by_cases hnames : p.names = []
  · rw [if_pos ((h.getLast?_toText habsolute).mpr hnames), if_pos hnames]
    rfl
  · rw [if_neg fun hlast => hnames ((h.getLast?_toText habsolute).mp hlast), if_neg hnames]
    rfl

theorem joinText_toText (p : Path) (hs : s.head? ≠ some '/') :
    joinText p.toText s = beneath p.toText s := by
  have hempty : p.toText.isEmpty = false :=
    Bool.eq_false_iff.mpr fun hnil => toText_ne_nil p (List.isEmpty_iff.mp hnil)
  unfold joinText beneath
  rw [if_neg hs, hempty]
  simp only [Bool.false_or, decide_eq_true_eq]

/-- Below a directory, the names of the rest are put behind its own. -/
theorem Readable.ofText_beneath (h : p.Readable) (habsolute : p.isAbsolute = true)
    (hs : s.head? ≠ some '/') :
    ofText (beneath p.toText s) = ⟨p.root, p.names ++ (ofText s).names⟩ := by
  rw [h.beneath_toText habsolute]
  by_cases hnames : p.names = []
  · rw [link, if_pos hnames, List.nil_append, toText_absolute habsolute, hnames]
    show ofText (List.replicate p.root '/' ++ [] ++ s) = _
    rw [List.append_nil, ofText, rootOf_replicate h.root_le hs, Text.pieces_replicate,
      List.filter_append]
    simp [ofText, Path.isName]
  · have hread := ofText_toText h
    have hother : ∃ c ∈ p.toText, c ≠ '/' := by
      have hlast := List.getLast?_eq_some_getLast (toText_ne_nil p)
      refine ⟨_, List.getLast_mem (toText_ne_nil p), fun heq => hnames ?_⟩
      exact (h.getLast?_toText habsolute).mp (heq ▸ hlast)
    have hroot : rootOf p.toText = p.root := congrArg Path.root hread
    have hcut := names_cut p.toText s
    rw [hread] at hcut
    rw [link, if_neg hnames]
    show ofText (p.toText ++ '/' :: s) = _
    rw [← hcut, ← hroot, ← rootOf_append hother]
    rfl

theorem Readable.toText_beneath (h : p.Readable) (habsolute : p.isAbsolute = true)
    (hne : names ≠ []) :
    toText ⟨p.root, p.names ++ names⟩ = beneath p.toText (Text.joined ['/'] names) := by
  rw [h.beneath_toText habsolute, toText_absolute habsolute,
    toText_absolute (p := ⟨p.root, p.names ++ names⟩) habsolute]
  by_cases hnames : p.names = []
  · simp [link, hnames, Text.joined]
  · rw [Text.joined_append hnames hne, link, if_neg hnames]
    simp only [List.append_assoc]

/-- A directory is the text of a path that collapsing leaves alone. -/
theorem IsDirectory.exists_path (h : IsDirectory s) :
    ∃ p : Path, p.toText = s ∧ p.Readable ∧ p.isAbsolute = true ∧ Straight p.names := by
  obtain ⟨rest, rfl⟩ := List.head?_eq_some_iff.mp h.absolute
  have habsolute : (ofText ('/' :: rest)).isAbsolute = true := by
    show decide (0 < rootOf ('/' :: rest)) = true
    unfold rootOf
    rw [List.takeWhile_cons_of_pos rfl]
    simp only [List.length_cons, Nat.add_one_ne_zero, if_false, decide_eq_true_eq]
    split <;> omega
  refine ⟨(ofText ('/' :: rest)).collapse, ?_, (readable_ofText _).collapse, habsolute,
    straight_collapse habsolute⟩
  rw [← collapseText_eq (List.cons_ne_nil _ _), h.collapsed]

/-! ### Escaped directories -/

/-- The path with every name escaped. -/
def escaped (p : Path) : Path := ⟨p.root, p.names.map Glob.escape⟩

theorem escape_joined (names : List (List Char)) :
    Glob.escape (Text.joined ['/'] names) = Text.joined ['/'] (names.map Glob.escape) := by
  induction names with
  | nil => rfl
  | cons name more ih =>
    by_cases hmore : more = []
    · subst hmore
      rfl
    · have hmap : more.map Glob.escape ≠ [] := fun hnil => hmore (List.map_eq_nil_iff.mp hnil)
      rw [List.map_cons, Text.joined_cons hmore, Text.joined_cons hmap, Glob.escape_append,
        Glob.escape_append, ih]
      rfl

theorem escape_toText (habsolute : p.isAbsolute = true) :
    Glob.escape p.toText = p.escaped.toText := by
  have hslashes : Glob.Plain (List.replicate p.root '/') := by
    intro c hc
    rw [List.eq_of_mem_replicate hc]
    decide
  rw [toText_absolute habsolute, toText_absolute (p := p.escaped) habsolute, Glob.escape_append,
    Glob.escape_of_plain hslashes, escape_joined]
  rfl

theorem Readable.escaped (h : p.Readable) : p.escaped.Readable where
  root_le := h.root_le
  isName := by
    intro name hname
    obtain ⟨original, horiginal, rfl⟩ := List.mem_map.mp hname
    have hname := h.isName original horiginal
    unfold Path.isName at hname ⊢
    simp only [Bool.and_eq_true, decide_eq_true_eq] at hname ⊢
    exact ⟨fun heq => hname.1 (Glob.eq_of_escape_eq heq (by decide)),
      fun heq => hname.2 (Glob.eq_of_escape_eq heq (by decide))⟩
  slash := by
    intro name hname hslash
    obtain ⟨original, horiginal, rfl⟩ := List.mem_map.mp hname
    rcases Glob.mem_escape hslash with heq | heq | hmem
    · exact absurd heq (by decide)
    · exact absurd heq (by decide)
    · exact h.slash original horiginal hmem

theorem straight_escaped (h : Straight p.names) : Straight p.escaped.names := by
  intro hmem
  obtain ⟨original, horiginal, heq⟩ := List.mem_map.mp hmem
  exact h (Glob.eq_of_escape_eq heq (by decide) ▸ horiginal)

end Path

/-! ### Anchored globs -/

namespace Glob

/-- A glob below a directory: without backslashes, `**` and segments that lead up, and with a
segment that is a name. -/
structure IsRelative (glob : List Char) : Prop where
  relative : glob.head? ≠ some '/'
  forward : '\\' ∉ glob
  single : Single glob
  straight : ['.', '.'] ∉ Text.pieces '/' glob
  named : ∃ segment ∈ Text.pieces '/' glob, Path.isName segment = true

variable {glob : List Char}

theorem IsRelative.names_ne_nil (h : IsRelative glob) : (Path.ofText glob).names ≠ [] := by
  obtain ⟨segment, hmem, hname⟩ := h.named
  exact List.ne_nil_of_mem (List.mem_filter.mpr ⟨hmem, hname⟩)

theorem IsRelative.straight_names (h : IsRelative glob) : Path.Straight (Path.ofText glob).names :=
  fun hmem => h.straight (List.mem_filter.mp hmem).1

theorem IsRelative.collapseText_eq (h : IsRelative glob) :
    Path.collapseText glob = Text.joined ['/'] (Path.ofText glob).names := by
  have hglob : glob ≠ [] := by
    rintro rfl
    exact h.names_ne_nil rfl
  have hroot : (Path.ofText glob).root = 0 :=
    Path.rootOf_replicate (n := 0) (Nat.zero_le 2) h.relative
  have hjoined := (Path.readable_ofText glob).joined_ne_nil h.names_ne_nil
  have htext := Path.toText_eq (List.append_ne_nil_of_right_ne_nil _ hjoined)
  rw [Path.collapseText_eq hglob, Path.collapse_of_straight h.straight_names, htext, hroot]
  rfl

theorem IsRelative.single_collapseText (h : IsRelative glob) : Single (Path.collapseText glob) := by
  intro hwithin
  rw [h.collapseText_eq] at hwithin
  obtain ⟨name, hname, hin⟩ := Text.exists_infix_of_joined (by simp) (by decide) hwithin
  exact h.single (hin.trans (Text.infix_of_mem_pieces (List.mem_filter.mp hname).1))

/-- Joined to the escaped directory and collapsed, the glob is the collapsed one behind it. -/
theorem IsRelative.collapseText_anchored (h : IsRelative glob) {p : Path} (hp : p.Readable)
    (habsolute : p.isAbsolute = true) (hstraight : Path.Straight p.names) :
    Path.collapseText (Path.joinText (escape p.toText) glob) =
      escape p.toText ++ (p.link ++ Path.collapseText glob) := by
  have hnames : Path.Straight (p.escaped.names ++ (Path.ofText glob).names) := by
    intro hmem
    rcases List.mem_append.mp hmem with hmem | hmem
    · exact Path.straight_escaped hstraight hmem
    · exact h.straight_names hmem
  have hlink : p.escaped.link = p.link := by
    simp [Path.link, Path.escaped]
  have hne : Path.beneath p.escaped.toText glob ≠ [] := by
    rw [hp.escaped.beneath_toText habsolute]
    exact List.append_ne_nil_of_left_ne_nil (Path.toText_ne_nil _) _
  rw [Path.escape_toText habsolute, Path.joinText_toText _ h.relative,
    Path.collapseText_eq hne, hp.escaped.ofText_beneath habsolute h.relative,
    Path.collapse_of_straight hnames, hp.escaped.toText_beneath habsolute h.names_ne_nil,
    hp.escaped.beneath_toText habsolute, hlink, h.collapseText_eq]

end Glob

namespace Filter

open Glob (IsRelative)

theorem anchor_directory {base glob : List Char} (hbase : Path.IsDirectory base)
    (hglob : IsRelative glob) : anchor (.directory base) glob =
      .ok (Path.collapseText (Path.joinText (Glob.escape base) glob)) := by
  have hstars : ['*', '*'].isPrefixOf glob = false := by
    apply Bool.eq_false_iff.mpr
    intro hprefix
    exact hglob.single (List.isPrefixOf_iff_prefix.mp hprefix).isInfix
  unfold anchor
  simp only [forward_of_not_mem hglob.forward, forward_of_not_mem hbase.forward, hstars]
  rw [if_neg (by simpa using hglob.relative)]

/-- A relative glob is anchored literally: the compiled pattern matches the ids whose path is the
directory, a single slash and a rest that the collapsed glob matches. -/
theorem anchorPattern_literal (cwd base : List Char) (glob : String)
    (hbase : Path.IsDirectory base) (hglob : IsRelative glob.toList) :
    Options.base cwd (.text (String.ofList base)) = .directory base ∧
      ∃ compiled, anchorPattern (.directory base) (.glob glob) = .ok compiled ∧
        ∀ id, matchesPath (pathOf id) compiled = true ↔
          ∃ rest, pathOf id = Path.beneath base rest ∧
            Glob.isMatch (Path.collapseText glob.toList) rest = true := by
  have hgiven : Options.base cwd (.text (String.ofList base)) = .directory base := by
    rw [Options.base, String.toList_ofList, Path.absoluteText, Path.joinText, if_pos hbase.absolute,
      hbase.collapsed]
  have hanchor := anchor_directory hbase hglob
  obtain ⟨p, rfl, hp, habsolute, hstraight⟩ := hbase.exists_path
  rw [hglob.collapseText_anchored hp habsolute hstraight] at hanchor
  refine ⟨hgiven, _, by rw [anchorPattern, hanchor]; rfl, fun id => ?_⟩
  have hlink : Glob.Plain p.link := by
    unfold Path.link
    split <;> decide
  have hsingle :
      Glob.Single (Glob.escape p.toText ++ (p.link ++ Path.collapseText glob.toList)) := by
    rw [Glob.single_escape_append, ← Glob.escape_of_plain hlink, Glob.single_escape_append]
    exact hglob.single_collapseText
  rw [matchesPath, String.toList_ofList, Glob.isPathMatch_single hsingle, Glob.isMatch_iff,
    Glob.matches_escape_iff]
  simp only [hp.beneath_toText habsolute, Glob.isMatch_iff, Glob.parts_plain hlink,
    Glob.matches_plain_iff]
  constructor
  · rintro ⟨u, hpath, rest, rfl, hrest⟩
    exact ⟨rest, hpath, hrest⟩
  · rintro ⟨rest, hpath, hrest⟩
    exact ⟨_, hpath, rest, rfl, hrest⟩

/-- The brackets and the star of the directory stand for themselves. -/
theorem anchorPattern_literal_brackets :
    Path.IsDirectory "/a[1]*".toList ∧ IsRelative "./src//?.jsx".toList ∧
      ∃ compiled, anchorPattern (.directory "/a[1]*".toList) (.glob "./src//?.jsx") = .ok compiled ∧
        matchesPath (pathOf "/a[1]*/lib/../src/x.jsx".toList) compiled = true := by
  have hbase : Path.IsDirectory "/a[1]*".toList := ⟨by decide, by decide, by decide⟩
  have hsingle : Glob.Single "./src//?.jsx".toList :=
    fun hstars => absurd (hstars.subset List.mem_cons_self) (by decide)
  have hglob : IsRelative "./src//?.jsx".toList :=
    ⟨by decide, by decide, hsingle, by decide, "src".toList, by decide, by decide⟩
  obtain ⟨-, compiled, hcompiled, hmatches⟩ := anchorPattern_literal [] _ _ hbase hglob
  exact ⟨hbase, hglob, compiled, hcompiled,
    (hmatches _).mpr ⟨"src/x.jsx".toList, by decide +kernel, by decide +kernel⟩⟩

end Filter
end PropShear
