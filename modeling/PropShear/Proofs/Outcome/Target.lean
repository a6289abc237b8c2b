import PropShear.Proofs.Outcome.Landing
import PropShear.Proofs.Path.Collapse

/-! Outputs below a directory.

A file below the root keeps its place there, so two such files never share an output. A file outside
keeps only its name, which may be taken: by another file outside, or by one that stands directly in
the root (`Collide`). These are all the ways in which outputs can clash (`relative_eq_iff`), and
outputs that do not clash are different files (`locate_target`). -/
namespace PropShear

/-! ### Paths without `..` -/

namespace Path

theorem straight_resolve (cwd : List (List Char)) (p : Path) : Straight (p.resolve cwd).names :=
  straight_collapse rfl

theorem join_relative (p : Path) (names : List (List Char)) :
    p.join ⟨0, names⟩ = ⟨p.root, p.names ++ names⟩ := rfl

end Path

namespace Disk

variable {d : Disk}

/-- Names that do not lead up are put behind one another. -/
theorem follow_straight {l k : Location} {names : List (List Char)}
    (hstraight : Path.Straight names) (h : d.follow l names = .ok k) : k = l ++ names := by
  induction names generalizing l with
  | nil =>
    cases h
    exact (List.append_nil _).symm
  | cons name rest ih =>
    rw [Path.Straight, List.mem_cons, not_or] at hstraight
    have hrest := ih hstraight.2 (follow_cons_eq_ok.mp h).2
    rw [hrest, step, if_neg (Ne.symm hstraight.1), List.append_assoc]
    rfl

/-- A path below a directory leads below the location of the directory. -/
theorem locate_join {directory : Path} {names : List (List Char)} {k : Location}
    (hstraight : Path.Straight names) (h : d.locate (directory.join ⟨0, names⟩) = .ok k) :
    ∃ m, d.follow (d.origin directory) directory.names = .ok m ∧ k = m ++ names := by
  obtain ⟨m, hfront, hrest⟩ := follow_append_eq_ok.mp (locate_eq_ok.mp h).2
  exact ⟨m, hfront, follow_straight hstraight hrest⟩

/-- So paths below a directory lead to different locations. -/
theorem names_eq_of_locate {directory : Path} {names names' : List (List Char)} {k : Location}
    (hstraight : Path.Straight names) (hstraight' : Path.Straight names')
    (h : d.locate (directory.join ⟨0, names⟩) = .ok k)
    (h' : d.locate (directory.join ⟨0, names'⟩) = .ok k) : names = names' := by
  obtain ⟨m, hm, hk⟩ := locate_join hstraight h
  obtain ⟨m', hm', hk'⟩ := locate_join hstraight' h'
  cases hm.symm.trans hm'
  exact List.append_cancel_left (hk.symm.trans hk')

end Disk

namespace Outcome

/-! ### Clashes -/

/-- The directory relative to which files keep their place. -/
def origin (cwd : Location) (root : Option Path) : Path := (root.getD ⟨1, cwd⟩).resolve cwd

/-- The names that the path of a file has below an output directory. -/
def relative (cwd : Location) (root : Option Path) (p : Path) : List (List Char) :=
  (((origin cwd root).below? (p.resolve cwd)).getD p.bare).names

/-- The file is not below the root. -/
def Outside (cwd : Location) (root : Option Path) (p : Path) : Prop :=
  ¬ (origin cwd root).names <+: (p.resolve cwd).names

/-- One of two files is outside the root, and its bare name is what becomes of the other. -/
def Collide (cwd : Location) (root : Option Path) (a b : Path) : Prop :=
  Outside cwd root a ∧ Outside cwd root b ∧ a.bare = b.bare ∨
    Outside cwd root a ∧ b.resolve cwd = (origin cwd root).join a.bare ∨
    Outside cwd root b ∧ a.resolve cwd = (origin cwd root).join b.bare

variable {cwd : Location} {root : Option Path} {a b p : Path}

theorem relative_outside (h : Outside cwd root p) : relative cwd root p = p.bare.names := by
  rw [relative, Path.below?, if_neg (fun hboth => h hboth.2)]
  rfl

theorem relative_inside {names : List (List Char)}
    (h : p.resolve cwd = (origin cwd root).join ⟨0, names⟩) : relative cwd root p = names := by
  rw [Path.join_relative] at h
  rw [relative, Path.below?, h, if_pos ⟨rfl, List.prefix_append _ _⟩]
  exact List.drop_left

/-- A file is outside the root or has a place below it. -/
theorem outside_or_inside (cwd : Location) (root : Option Path) (p : Path) :
    Outside cwd root p ∨ ∃ names, p.resolve cwd = (origin cwd root).join ⟨0, names⟩ := by
  by_cases hprefix : (origin cwd root).names <+: (p.resolve cwd).names
  · obtain ⟨names, hnames⟩ := hprefix
    refine .inr ⟨names, ?_⟩
    rw [Path.join_relative, hnames]
    rfl
  · exact .inl hprefix

/-- Different files become the same below an output directory exactly if they collide. -/
theorem relative_eq_iff (hne : a.resolve cwd ≠ b.resolve cwd) :
    relative cwd root a = relative cwd root b ↔ Collide cwd root a b := by
  constructor
  · intro h
    rcases outside_or_inside cwd root a with ha | ⟨names, ha⟩
    · rcases outside_or_inside cwd root b with hb | ⟨names', hb⟩
      · rw [relative_outside ha, relative_outside hb] at h
        exact .inl ⟨ha, hb, congrArg (Path.mk 0) h⟩
      · rw [relative_outside ha, relative_inside hb] at h
        rw [← h] at hb
        exact .inr (.inl ⟨ha, hb⟩)
    · rcases outside_or_inside cwd root b with hb | ⟨names', hb⟩
      · rw [relative_inside ha, relative_outside hb] at h
        rw [h] at ha
        exact .inr (.inr ⟨hb, ha⟩)
      · rw [relative_inside ha, relative_inside hb] at h
        rw [← h, ← ha] at hb
        exact absurd hb.symm hne
  · intro h
    rcases h with ⟨ha, hb, hbare⟩ | ⟨ha, hb⟩ | ⟨hb, ha⟩
    · rw [relative_outside ha, relative_outside hb, hbare]
    · rw [relative_outside ha]
      exact (relative_inside hb).symm
    · rw [relative_outside hb]
      exact relative_inside ha

/-! ### Outputs -/

/-- The path of a file: it ends in a name, and is not the root itself. -/
structure IsFilePath (cwd : Location) (root : Option Path) (p : Path) : Prop where
  name : Path.isName p.name = true
  straight : p.name ≠ ['.', '.']
  below : p.resolve cwd ≠ origin cwd root

theorem straight_relative (h : IsFilePath cwd root p) : Path.Straight (relative cwd root p) := by
  intro hmem
  rcases outside_or_inside cwd root p with hout | ⟨names, hin⟩
  · rw [relative_outside hout] at hmem
    exact h.straight (List.mem_singleton.mp (List.mem_filter.mp hmem).1).symm
  · rw [relative_inside hin] at hmem
    have hstraight := p.straight_resolve cwd
    rw [hin] at hstraight
    exact hstraight (List.mem_append_right _ hmem)

theorem relative_ne_nil (h : IsFilePath cwd root p) : relative cwd root p ≠ [] := by
  intro hnil
  rcases outside_or_inside cwd root p with hout | ⟨names, hin⟩
  · rw [relative_outside hout, Path.bare, List.filter_cons_of_pos h.name] at hnil
    cases hnil
  · rw [relative_inside hin] at hnil
    refine h.below ?_
    rw [hin, Path.join_relative, hnil, List.append_nil]

theorem target_eq (directory : Path) (cwd : Location) (root : Option Path) (p : Path) :
    target cwd p (some directory) root = directory.join ⟨0, relative cwd root p⟩ := by
  show directory.join (((origin cwd root).below? (p.resolve cwd)).getD p.bare) = _
  rcases outside_or_inside cwd root p with hout | ⟨names, hin⟩
  · rw [relative_outside hout, Path.below?, if_neg (fun hboth => hout hboth.2)]
    rfl
  · rw [relative_inside hin, Path.below?, hin, if_pos ⟨rfl, List.prefix_append _ _⟩]
    exact congrArg (fun names => directory.join ⟨0, names⟩) List.drop_left

theorem target_eq_iff (directory : Path) :
    target cwd a (some directory) root = target cwd b (some directory) root ↔
      relative cwd root a = relative cwd root b := by
  rw [target_eq, target_eq, Path.join_relative, Path.join_relative, Path.mk.injEq,
    List.append_cancel_left_eq, and_iff_right rfl]

/-- A source map stands beside its output. -/
theorem mapPath_target (directory : Path) (h : IsFilePath cwd root p) : ∃ names,
    Path.Straight names ∧
      mapPath (target cwd p (some directory) root) = directory.join ⟨0, names⟩ := by
  have hstraight := straight_relative h
  have hne := relative_ne_nil h
  rw [target_eq]
  generalize relative cwd root p = names at hstraight hne ⊢
  refine ⟨names.dropLast ++ [(directory.join ⟨0, names⟩).name ++ ".map".toList], ?_, ?_⟩
  · intro hmem
    rcases List.mem_append.mp hmem with hfront | hlast
    · exact hstraight ((List.dropLast_sublist names).subset hfront)
    · have hlength := congrArg List.length (List.mem_singleton.mp hlast)
      rw [List.length_append] at hlength
      have hmap : ".map".toList.length = 4 := by decide
      have htwo : ['.', '.'].length = 2 := rfl
      omega
  · rw [mapPath, Path.withName, mapName, Path.join_relative, Path.join_relative,
      List.dropLast_append_of_ne_nil hne, List.append_assoc]

/-- What a later file writes is not where the output of a file is that it does not collide with. -/
theorem locate_target {o later : Outcome} {d : Disk} {directory : Path} {l : Location}
    (ho : IsFilePath d.cwd root o.path) (hlater : IsFilePath d.cwd root later.path)
    (hne : o.path.resolve d.cwd ≠ later.path.resolve d.cwd)
    (hcollide : ¬ Collide d.cwd root o.path later.path)
    (hmap : later.map.isSome = true → mapPath (target d.cwd later.path (some directory) root) ≠
      target d.cwd o.path (some directory) root)
    (hl : d.locate (target d.cwd o.path (some directory) root) = .ok l) :
    ¬ later.LandsAt d (some directory) root l := by
  intro hlands
  rw [target_eq] at hl
  rcases hlands.2 with houtput | ⟨hsome, hbeside⟩
  · rw [target_eq] at houtput
    have hsame :=
      Disk.names_eq_of_locate (straight_relative ho) (straight_relative hlater) hl houtput
    exact hcollide ((relative_eq_iff hne).mp hsame)
  · obtain ⟨names, hstraight, hpath⟩ := mapPath_target directory hlater
    rw [hpath] at hbeside
    have hsame := Disk.names_eq_of_locate (straight_relative ho) hstraight hl hbeside
    refine hmap hsome ?_
    rw [hpath, target_eq, hsame]

/-- **Outputs clash exactly if one of two files lies outside the root**, and its name is what
becomes of the other. In a run that writes below an output directory, the output of a file stays as
it was written unless a later file clashes with it so, or leaves its source map there. Trees have no
links, so paths that differ once they are resolved lead to different places. -/
theorem target_collides (directory : Path) (root : Option Path) :
    (∀ cwd a b, Path.resolve cwd a ≠ Path.resolve cwd b →
      (target cwd a (some directory) root = target cwd b (some directory) root ↔
        Collide cwd root a b)) ∧
    ∀ before o after d d', Writes (some directory) root (before ++ o :: after) d d' →
      (∀ x ∈ o :: after, IsFilePath d.cwd root x.path) →
      (∀ later ∈ after, o.path.resolve d.cwd ≠ later.path.resolve d.cwd ∧
        ¬ Collide d.cwd root o.path later.path) →
      (∀ later ∈ after, later.map.isSome = true →
        mapPath (target d.cwd later.path (some directory) root) ≠
          target d.cwd o.path (some directory) root) →
      d'.read (target d.cwd o.path (some directory) root) = .ok (Text.Utf8.encode
        (o.outputText (target d.cwd o.path (some directory) root)).toList) := by
  refine ⟨fun cwd a b hne => (target_eq_iff directory).trans (relative_eq_iff hne), ?_⟩
  intro before o after d d' hwrites hpaths happart hmaps
  have hcwd : d'.cwd = d.cwd := hwrites.grows.cwd
  refine hwrites.keeps rfl fun later hmem l hl => ?_
  have hlater := hpaths later (List.mem_cons_of_mem o hmem)
  rw [← hcwd] at hlater hl hmaps happart
  exact locate_target (hcwd ▸ hpaths o List.mem_cons_self) hlater (happart later hmem).1
    (happart later hmem).2 (hmaps later hmem) hl

/-- A stripped file that is left with a text. -/
def strippedAt (path : Path) (code : String) : Outcome :=
  ⟨path, .stripped, "", code, none, 1, none⟩

/-- A file above the working directory and one below it, of one name. -/
def above : Outcome := strippedAt ⟨0, ["..".toList, "a.jsx".toList]⟩ "1"

def beneath : Outcome := strippedAt ⟨0, ["s".toList, "a.jsx".toList]⟩ "2"

def workDisk : Disk := .empty ["w".toList]

/-- The first output of the two is still there after the second is written. -/
theorem target_collides_above :
    ∃ d', Writes (some ⟨0, ["out".toList]⟩) none [above, beneath] workDisk d' ∧
      d'.read ⟨0, ["out".toList, "a.jsx".toList]⟩ = .ok (Text.Utf8.encode ['1']) := by
  let out : Option Path := some ⟨0, ["out".toList]⟩
  let mid : Disk := (above.write workDisk out none).1
  obtain ⟨first, hfirst, hone⟩ := exists_ok (x := (above.write workDisk out none).2)
    (p := (·.isSome)) (by decide +kernel)
  obtain ⟨second, hsecond, htwo⟩ := exists_ok (x := (beneath.write mid out none).2)
    (p := (·.isSome)) (by decide +kernel)
  obtain ⟨path, rfl⟩ := Option.isSome_iff_exists.mp hone
  obtain ⟨path', rfl⟩ := Option.isSome_iff_exists.mp htwo
  have hwrites : Writes out none ([] ++ above :: [beneath]) workDisk _ :=
    .cons (Prod.ext rfl hfirst) (.cons (Prod.ext rfl hsecond) .nil)
  refine ⟨_, hwrites, (target_collides ⟨0, ["out".toList]⟩ none).2 [] above [beneath] workDisk _
    hwrites ?_ ?_ ?_⟩
  · intro x hx
    rcases List.mem_cons.mp hx with hfirst | hrest
    · rw [hfirst]
      exact ⟨by decide, by decide, by decide⟩
    · rw [List.mem_singleton.mp hrest]
      exact ⟨by decide, by decide, by decide⟩
  · intro later hlater
    rw [List.mem_singleton.mp hlater]
    refine ⟨by decide, ?_⟩
    rw [← relative_eq_iff (by decide)]
    decide
  · intro later hlater hmap
    rw [List.mem_singleton.mp hlater] at hmap
    cases hmap

/-- Two files outside the root that have one name get one output. -/
theorem target_clashes :
    let a : Path := ⟨0, ["x".toList, "a.jsx".toList]⟩
    let b : Path := ⟨0, ["y".toList, "a.jsx".toList]⟩
    a.resolve [] ≠ b.resolve [] ∧
      target [] a (some ⟨0, ["out".toList]⟩) (some ⟨0, ["lib".toList]⟩) =
        target [] b (some ⟨0, ["out".toList]⟩) (some ⟨0, ["lib".toList]⟩) := by
  decide

end Outcome

end PropShear
