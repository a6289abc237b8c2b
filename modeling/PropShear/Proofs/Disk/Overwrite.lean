import PropShear.Proofs.Disk.Outline
import PropShear.Proofs.Except
import PropShear.Proofs.Path.Collapse

/-! Writing over a file.

A file that can be read can be written, and then holds the new bytes, while the outline of the tree
and all other files stay as they were (`write_over`). The directory it is in exists already
(`ensureDirectory_parent`). -/
namespace PropShear.Disk

/-! ### Entries -/

theorem lookup_setEntries (l k : Location) (e : Entry) (entries : List (Location × Entry)) :
    (setEntries l e entries).lookup k = if k = l then some e else entries.lookup k := by
  induction entries with
  | nil => exact lookup_cons_eq k l e []
  | cons entry rest ih =>
    obtain ⟨other, old⟩ := entry
    rw [setEntries]
    by_cases hother : other = l
    · rw [if_pos hother, lookup_cons_eq, lookup_cons_eq, hother]
      by_cases hk : k = l
      · rw [if_pos hk, if_pos hk]
      · rw [if_neg hk, if_neg hk, if_neg hk]
    · rw [if_neg hother, lookup_cons_eq, lookup_cons_eq, ih]
      by_cases hk : k = l
      · rw [if_neg (hk ▸ Ne.symm hother), if_pos hk, if_pos hk]
      · rw [if_neg hk, if_neg hk]

theorem get?_set (d : Disk) {l : Location} (hl : l ≠ []) (e : Entry) (k : Location) :
    (d.set l e).get? k = if k = l then some e else d.get? k := by
  unfold get?
  by_cases hk : k = []
  · subst hk
    simp [Ne.symm hl]
  · simp only [List.isEmpty_iff, hk, if_false]
    exact lookup_setEntries l k e d.entries

theorem map_blank_setEntries {l : Location} {old bytes : List UInt8}
    {entries : List (Location × Entry)} (h : entries.lookup l = some (.file old)) :
    (setEntries l (.file bytes) entries).map (fun (k, e) => (k, Entry.blank e)) =
      entries.map fun (k, e) => (k, Entry.blank e) := by
  induction entries with
  | nil => cases h
  | cons entry rest ih =>
    obtain ⟨k, e⟩ := entry
    rw [setEntries]
    by_cases hk : k = l
    · subst hk
      rw [List.lookup_cons_self] at h
      cases h
      rw [if_pos rfl]
      rfl
    · rw [lookup_cons_eq, if_neg (Ne.symm hk)] at h
      rw [if_neg hk, List.map_cons, List.map_cons, ih h]

theorem outline_set {d : Disk} {l : Location} {old : List UInt8} (bytes : List UInt8)
    (h : d.get? l = some (.file old)) : (d.set l (.file bytes)).outline = d.outline := by
  have hl : l.isEmpty = false := by
    cases l with
    | nil => cases h
    | cons => rfl
  rw [get?, hl] at h
  exact congrArg (Disk.mk d.cwd · d.closed) (map_blank_setEntries h)

/-! ### Reading -/

/-- A file that is there and not closed can be read. -/
theorem read_eq_ok {d : Disk} {p : Path} {bytes : List UInt8} :
    d.read p = .ok bytes ↔
      ∃ l, d.locate p = .ok l ∧ d.isClosed l = false ∧ d.get? l = some (.file bytes) := by
  constructor
  · intro h
    obtain ⟨l, hl, hget⟩ := bind_eq_ok h
    refine ⟨l, hl, ?_⟩
    cases hclosed : d.isClosed l with
    | true =>
      rw [hclosed] at hget
      cases hget
    | false =>
      rw [hclosed] at hget
      rcases hentry : d.get? l with _ | old | _
      · rw [hentry] at hget
        cases hget
      · rw [hentry] at hget
        cases hget
        exact ⟨rfl, rfl⟩
      · rw [hentry] at hget
        cases hget
  · rintro ⟨l, hl, hopen, hget⟩
    simp only [read, hl, hopen, hget, bind, Except.bind, pure, Except.pure, Bool.false_eq_true,
      if_false]

theorem probeFile_of_read {d : Disk} {p : Path} {bytes : List UInt8} (h : d.read p = .ok bytes) :
    d.probeFile p = .ok true := by
  obtain ⟨l, hl, -, hfile⟩ := read_eq_ok.mp h
  rw [probeFile, probe, hl]
  dsimp only
  rw [hfile]
  rfl

/-! ### Writing -/

theorem modify_of_read {d : Disk} {p : Path} {l : Location} {old : List UInt8}
    (hl : d.locate p = .ok l) (hopen : d.isClosed l = false) (hfile : d.get? l = some (.file old))
    (f : List UInt8 → List UInt8) : d.modify p f = .ok (d.set l (.file (f old))) := by
  have hheld : d.held l = old := by rw [held, hfile]
  have hne : d.get? l ≠ some .directory := by
    intro hdirectory
    rw [hfile] at hdirectory
    cases hdirectory
  rw [modify, hl]
  simp [bind, Except.bind, pure, Except.pure, hne, hopen, hheld]

theorem write_over {d : Disk} {p : Path} {old : List UInt8} (h : d.read p = .ok old)
    (bytes : List UInt8) : ∃ d', d.write p bytes = .ok d' ∧ d'.outline = d.outline ∧
      d'.read p = .ok bytes ∧ ∀ q, d.locate q ≠ d.locate p → d'.read q = d.read q := by
  obtain ⟨l, hl, hopen, hfile⟩ := read_eq_ok.mp h
  have hnil : l ≠ [] := by
    intro hnil
    rw [hnil] at hfile
    cases hfile
  have hsame : (d.set l (.file bytes)).outline = d.outline := outline_set bytes hfile
  refine ⟨d.set l (.file bytes), ?_, hsame, ?_, ?_⟩
  · exact modify_of_read hl hopen hfile _
  · refine read_eq_ok.mpr ⟨l, (locate_congr hsame p).trans hl, hopen, ?_⟩
    rw [get?_set d hnil, if_pos rfl]
  · intro q hq
    refine read_congr hsame fun k hk => ?_
    rw [get?_set d hnil, if_neg]
    intro hkl
    rw [hk, hl, hkl] at hq
    exact hq rfl

/-! ### The directory of a file -/

theorem follow_concat {d : Disk} {l k : Location} {names : List (List Char)} {name : List Char}
    (h : d.follow l (names ++ [name]) = .ok k) :
    ∃ m, d.follow l names = .ok m ∧ d.get? m = some .directory := by
  obtain ⟨m, hm, hlast⟩ := follow_append_eq_ok.mp h
  exact ⟨m, hm, (obstacle?_eq_none.mp (follow_cons_eq_ok.mp hlast).1).1⟩

theorem byteLength_append (s t : List Char) :
    Text.byteLength (s ++ t) = Text.byteLength s + Text.byteLength t := by
  induction s with
  | nil => exact (Nat.zero_add _).symm
  | cons c rest ih =>
    show c.utf8Size + Text.byteLength (rest ++ t) = c.utf8Size + Text.byteLength rest + _
    rw [ih, Nat.add_assoc]

/-- Text is not refused if more text is not. -/
theorem refusal?_of_prefix {s t : List Char} (hst : s <+: t) (h : refusal? t = none) :
    refusal? s = none := by
  obtain ⟨rest, rfl⟩ := hst
  unfold refusal? at h ⊢
  rw [byteLength_append, List.contains_eq_mem] at h
  rw [List.contains_eq_mem]
  by_cases hnull : '\x00' ∈ s
  · simp [hnull] at h
  · by_cases hlong : 4096 ≤ Text.byteLength s
    · have hmore : 4096 ≤ Text.byteLength s + Text.byteLength rest := by omega
      by_cases hrest : '\x00' ∈ rest
      · simp [hrest] at h
      · simp [hmore, hnull, hrest] at h
    · simp [hnull, hlong]

theorem joined_prefix {names more : List (List Char)} (sep : List Char) (h : names <+: more) :
    Text.joined sep names <+: Text.joined sep more := by
  obtain ⟨rest, rfl⟩ := h
  by_cases hnames : names = []
  · subst hnames
    exact List.nil_prefix
  · by_cases hrest : rest = []
    · subst hrest
      exact (List.append_nil names).symm ▸ List.prefix_rfl
    · rw [Text.joined_append hnames hrest, List.append_assoc]
      exact List.prefix_append _ _

theorem refusal?_parent {p : Path} (h : refusal? p.toText = none) :
    refusal? p.parent.toText = none := by
  have hjoined := joined_prefix ['/'] (List.dropLast_prefix p.names)
  have htext := (List.prefix_append_right_inj (List.replicate p.root '/')).mpr hjoined
  by_cases hempty : List.replicate p.root '/' ++ Text.joined ['/'] p.names.dropLast = []
  · have hdot : p.parent.toText = ['.'] := by rw [Path.toText, Path.parent, hempty]
    rw [hdot]
    rfl
  · have hwhole : List.replicate p.root '/' ++ Text.joined ['/'] p.names ≠ [] := by
      intro hnil
      rw [hnil, List.prefix_nil] at htext
      exact hempty htext
    rw [Path.toText_eq hwhole] at h
    have hparent : p.parent.toText = _ := Path.toText_eq hempty
    rw [hparent]
    exact refusal?_of_prefix htext h

/-- A directory that exists is left as it is. -/
theorem ensureDirectory_of_directory {d : Disk} {p : Path} {l : Location}
    (hl : d.locate p = .ok l) (hdirectory : d.get? l = some .directory) :
    d.ensureDirectory p = .ok d := by
  have hmake : d.makeDirectory p = .error ⟨.occupied, some p⟩ := by
    simp only [makeDirectory, hl, hdirectory, bind, Except.bind]
    rfl
  have hthere : d.isDirectory p = true := by
    rw [isDirectory, entryAt?, hl]
    exact decide_eq_true hdirectory
  rw [ensureDirectory, hmake]
  show d.acceptDirectory p _ = _
  rw [acceptDirectory, if_pos hthere]

/-- The directory of a file exists, if the working directory does. -/
theorem ensureDirectory_parent {d : Disk} {p : Path} {bytes : List UInt8}
    (hcwd : d.get? d.cwd = some .directory) (h : d.read p = .ok bytes) :
    d.ensureDirectory p.parent = .ok d := by
  obtain ⟨l, hl, -, hfile⟩ := read_eq_ok.mp h
  obtain ⟨hrefusal, hfollow⟩ := locate_eq_ok.mp hl
  rcases List.eq_nil_or_concat p.names with hnil | ⟨names, name, hconcat⟩
  · -- the path is the root or the working directory, which are no files
    rw [hnil] at hfollow
    cases hfollow
    rw [origin] at hfile
    cases habsolute : p.isAbsolute with
    | true =>
      rw [habsolute] at hfile
      cases hfile
    | false =>
      rw [habsolute, if_neg Bool.false_ne_true, hcwd] at hfile
      cases hfile
  · rw [hconcat, List.concat_eq_append] at hfollow
    obtain ⟨m, hm, hdirectory⟩ := follow_concat hfollow
    have hnames : p.parent.names = names := by
      rw [Path.parent, hconcat, List.concat_eq_append, List.dropLast_concat]
    refine ensureDirectory_of_directory (l := m) ?_ hdirectory
    exact locate_eq_ok.mpr ⟨refusal?_parent hrefusal, hnames ▸ hm⟩

end PropShear.Disk
