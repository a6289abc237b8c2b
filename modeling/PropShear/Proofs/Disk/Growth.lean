import PropShear.Proofs.Disk.Overwrite

/-! How a tree of files grows.

Directories and files are made and files are written over, but nothing is ever taken away or turned
into something else (`Grows`). So a path that leads somewhere goes on leading there
(`Grows.locate`), and files can only differ where one was written (`modify_grows`). Writing over a
file that is there already does not even change the outline (`Agrees`). -/
namespace PropShear.Disk

/-- The same file is at a location in both trees, or none in either. -/
def SameFile (d d' : Disk) (l : Location) : Prop :=
  ∀ bytes, d'.get? l = some (.file bytes) ↔ d.get? l = some (.file bytes)

/-- A tree grows into another, and only the files at some places may be new or have other bytes. -/
structure Grows (places : Location → Prop) (d d' : Disk) : Prop where
  cwd : d'.cwd = d.cwd
  closed : d'.closed = d.closed
  directory : ∀ {l}, d.get? l = some .directory → d'.get? l = some .directory
  file : ∀ {l bytes}, d.get? l = some (.file bytes) → ∃ bytes, d'.get? l = some (.file bytes)
  same : ∀ {l}, ¬ places l → SameFile d d' l

namespace Grows

variable {places others : Location → Prop} {d d' d'' : Disk}

theorem refl (places : Location → Prop) (d : Disk) : Grows places d d where
  cwd := rfl
  closed := rfl
  directory h := h
  file h := ⟨_, h⟩
  same _ _ := Iff.rfl

theorem trans (h : Grows places d d') (h' : Grows places d' d'') : Grows places d d'' where
  cwd := h'.cwd.trans h.cwd
  closed := h'.closed.trans h.closed
  directory hl := h'.directory (h.directory hl)
  file hl := by
    obtain ⟨bytes, hbytes⟩ := h.file hl
    exact h'.file hbytes
  same hl bytes := (h'.same hl bytes).trans (h.same hl bytes)

theorem mono (h : Grows places d d') (hsub : ∀ l, places l → others l) : Grows others d d' where
  cwd := h.cwd
  closed := h.closed
  directory := h.directory
  file := h.file
  same hl := h.same fun hplace => hl (hsub _ hplace)

theorem isClosed (h : Grows places d d') (l : Location) : d'.isClosed l = d.isClosed l :=
  congrArg (·.contains l) h.closed

theorem follow (h : Grows places d d') {l k : Location} {names : List (List Char)}
    (hfollow : d.follow l names = .ok k) : d'.follow l names = .ok k := by
  induction names generalizing l with
  | nil => exact hfollow
  | cons name rest ih =>
    obtain ⟨hfree, hrest⟩ := follow_cons_eq_ok.mp hfollow
    obtain ⟨hdirectory, hopen, hname⟩ := obstacle?_eq_none.mp hfree
    refine follow_cons_eq_ok.mpr
      ⟨obstacle?_eq_none.mpr ⟨h.directory hdirectory, ?_, hname⟩, ih hrest⟩
    exact (h.isClosed l).trans hopen

/-- A path that leads somewhere goes on leading there. -/
theorem locate (h : Grows places d d') {p : Path} {l : Location} (hl : d.locate p = .ok l) :
    d'.locate p = .ok l := by
  obtain ⟨hrefusal, hfollow⟩ := locate_eq_ok.mp hl
  refine locate_eq_ok.mpr ⟨hrefusal, ?_⟩
  rw [origin, h.cwd]
  exact h.follow hfollow

/-- A file away from the places can be read as before. -/
theorem read (h : Grows places d d') {p : Path} {l : Location} {bytes : List UInt8}
    (hl : d.locate p = .ok l) (hplace : ¬ places l) (hread : d.read p = .ok bytes) :
    d'.read p = .ok bytes := by
  obtain ⟨k, hk, hopen, hfile⟩ := read_eq_ok.mp hread
  cases hl.symm.trans hk
  exact read_eq_ok.mpr
    ⟨l, h.locate hl, (h.isClosed l).trans hopen, (h.same hplace bytes).mpr hfile⟩

end Grows

/-! ### Steps -/

variable {d d' : Disk} {p : Path}

theorem ne_nil_of_not_directory {l : Location} (h : d.get? l ≠ some .directory) : l ≠ [] := by
  intro hnil
  subst hnil
  exact h rfl

theorem grows_set_file {l : Location} (bytes : List UInt8) (h : d.get? l ≠ some .directory) :
    Grows (· = l) d (d.set l (.file bytes)) := by
  have hget := get?_set d (ne_nil_of_not_directory h) (.file bytes)
  refine ⟨rfl, rfl, fun {k} hk => ?_, fun {k old} hk => ?_, fun {k} hk bytes => ?_⟩
  · rw [hget, if_neg]
    · exact hk
    · intro hkl
      exact h (hkl ▸ hk)
  · rw [hget]
    split
    · exact ⟨_, rfl⟩
    · exact ⟨_, hk⟩
  · rw [hget, if_neg hk]

theorem grows_set_directory {l : Location} (h : d.get? l = none) :
    Grows (fun _ => False) d (d.set l .directory) := by
  have hnone : d.get? l ≠ some .directory := by rw [h]; exact nofun
  have hget := get?_set d (ne_nil_of_not_directory hnone) .directory
  refine ⟨rfl, rfl, fun {k} hk => ?_, fun {k old} hk => ?_, fun {k} _ bytes => ?_⟩
  · rw [hget]
    split
    · rfl
    · exact hk
  · refine ⟨old, ?_⟩
    rw [hget, if_neg]
    · exact hk
    · intro hkl
      rw [hkl, h] at hk
      cases hk
  · rw [hget]
    split
    · next hkl =>
      rw [hkl, h]
      exact ⟨nofun, nofun⟩
    · exact Iff.rfl

theorem modify_eq_set {f : List UInt8 → List UInt8} (h : d.modify p f = .ok d') :
    ∃ l old, d.locate p = .ok l ∧ d.get? l ≠ some .directory ∧ d.isClosed l = false ∧
      d' = d.set l (.file (f old)) := by
  obtain ⟨l, hl, hset⟩ := bind_eq_ok h
  by_cases hdirectory : d.get? l = some .directory
  · rw [if_pos hdirectory] at hset
    cases hset
  · rw [if_neg hdirectory] at hset
    cases hclosed : d.isClosed l with
    | true =>
      rw [hclosed] at hset
      cases hset
    | false =>
      rw [hclosed] at hset
      cases hset
      exact ⟨l, d.held l, hl, hdirectory, hclosed, rfl⟩

/-- Writing to a file changes that file only. -/
theorem modify_grows {f : List UInt8 → List UInt8} (h : d.modify p f = .ok d') :
    ∃ l, d.locate p = .ok l ∧ Grows (· = l) d d' ∧ d.isClosed l = false ∧
      ∃ old, d'.get? l = some (.file (f old)) := by
  obtain ⟨l, old, hl, hne, hopen, rfl⟩ := modify_eq_set h
  refine ⟨l, hl, grows_set_file _ hne, hopen, old, ?_⟩
  rw [get?_set d (ne_nil_of_not_directory hne), if_pos rfl]

theorem modify_elsewhere {f : List UInt8 → List UInt8} {l k : Location}
    (h : d.modify p f = .ok d') (hl : d.locate p = .ok l) (hk : k ≠ l) :
    d'.get? k = d.get? k := by
  obtain ⟨m, old, hm, hne, -, rfl⟩ := modify_eq_set h
  cases hl.symm.trans hm
  rw [get?_set d (ne_nil_of_not_directory hne), if_neg hk]

theorem write_grows {bytes : List UInt8} (h : d.write p bytes = .ok d') :
    ∃ l, d.locate p = .ok l ∧ Grows (· = l) d d' ∧ d'.read p = .ok bytes := by
  obtain ⟨l, hl, hgrows, hopen, -, hget⟩ := modify_grows h
  exact ⟨l, hl, hgrows,
    read_eq_ok.mpr ⟨l, hgrows.locate hl, (hgrows.isClosed l).trans hopen, hget⟩⟩

theorem makeDirectory_grows (h : d.makeDirectory p = .ok d') : Grows (fun _ => False) d d' := by
  obtain ⟨l, -, hset⟩ := bind_eq_ok h
  split at hset
  · cases hset
  · next hnone =>
    cases hset
    exact grows_set_directory hnone

theorem acceptDirectory_grows {made : Except Error Disk}
    (hmade : ∀ {d'}, made = .ok d' → Grows (fun _ => False) d d')
    (h : d.acceptDirectory p made = .ok d') : Grows (fun _ => False) d d' := by
  cases made with
  | ok made =>
    cases h
    exact hmade rfl
  | error e =>
    rw [acceptDirectory] at h
    split at h
    · cases h
      exact .refl _ d
    · cases h

/-- Making a directory and those above it changes no file. -/
theorem ensureDirectory_grows {d' : Disk} (h : d.ensureDirectory p = .ok d') :
    Grows (fun _ => False) d d' := by
  fun_induction ensureDirectory d p generalizing d' with
  | case1 p q hmake hroot => cases h
  | case2 p q hmake hroot e habove ih => cases h
  | case3 p q hmake hroot above habove ih =>
    exact (ih habove).trans (acceptDirectory_grows makeDirectory_grows h)
  | case4 p hmake => exact acceptDirectory_grows makeDirectory_grows h

/-! ### Writing over files -/

/-- A path does not lead to any of some places. -/
def Away (d : Disk) (places : Location → Prop) (p : Path) : Prop :=
  ∀ ⦃l⦄, d.locate p = .ok l → ¬ places l

/-- Trees of one outline, with the same bytes in all files but those at some places. -/
structure Agrees (places : Location → Prop) (d d' : Disk) : Prop where
  outline : d'.outline = d.outline
  get? : ∀ {l}, ¬ places l → d'.get? l = d.get? l

namespace Agrees

variable {places others : Location → Prop} {d d' d'' : Disk}

theorem refl (places : Location → Prop) (d : Disk) : Agrees places d d := ⟨rfl, fun _ => rfl⟩

theorem symm (h : Agrees places d d') : Agrees places d' d :=
  ⟨h.outline.symm, fun hl => (h.get? hl).symm⟩

theorem trans (h : Agrees places d d') (h' : Agrees places d' d'') : Agrees places d d'' :=
  ⟨h'.outline.trans h.outline, fun hl => (h'.get? hl).trans (h.get? hl)⟩

theorem mono (h : Agrees places d d') (hsub : ∀ l, places l → others l) : Agrees others d d' :=
  ⟨h.outline, fun hl => h.get? fun hplace => hl (hsub _ hplace)⟩

theorem cwd (h : Agrees places d d') : d'.cwd = d.cwd := by
  have hcwd : d'.outline.cwd = d.outline.cwd := congrArg Disk.cwd h.outline
  exact hcwd

theorem closed (h : Agrees places d d') : d'.closed = d.closed := by
  have hclosed : d'.outline.closed = d.outline.closed := congrArg Disk.closed h.outline
  exact hclosed

theorem blank (h : Agrees places d d') (l : Location) :
    (d'.get? l).map Entry.blank = (d.get? l).map Entry.blank := by
  rw [← get?_outline, h.outline, get?_outline]

theorem grows (h : Agrees places d d') : Grows places d d' where
  cwd := h.cwd
  closed := h.closed
  directory {l} hl := by
    have hblank := h.blank l
    rw [hl] at hblank
    obtain ⟨e, he, hdirectory⟩ := Option.map_eq_some_iff.mp hblank
    rw [he, Entry.blank_eq_directory.mp hdirectory]
  file {l bytes} hl := by
    have hblank := h.blank l
    rw [hl] at hblank
    obtain ⟨e, he, hfile⟩ := Option.map_eq_some_iff.mp hblank
    cases e with
    | file bytes => exact ⟨bytes, he⟩
    | directory => cases hfile
  same hl bytes := by rw [h.get? hl]

theorem readText (h : Agrees places d d') {p : Path} (hp : d.Away places p) :
    d'.readText p = d.readText p := by
  refine readText_congr h.outline ?_
  rw [entryAt?, entryAt?, locate_congr h.outline]
  cases hl : d.locate p with
  | error e => rfl
  | ok l => exact h.get? (hp hl)

/-- A file that is there stays there. -/
theorem read_ok (h : Agrees places d d') {p : Path} {bytes : List UInt8}
    (hread : d.read p = .ok bytes) : ∃ bytes, d'.read p = .ok bytes := by
  obtain ⟨l, hl, hopen, hfile⟩ := read_eq_ok.mp hread
  obtain ⟨bytes, hbytes⟩ := h.grows.file hfile
  exact ⟨bytes,
    read_eq_ok.mpr ⟨l, h.grows.locate hl, (h.grows.isClosed l).trans hopen, hbytes⟩⟩

end Agrees

/-- Writing to a file that is there keeps the outline. -/
theorem modify_agrees {old : List UInt8} (f : List UInt8 → List UInt8) (h : d.read p = .ok old) :
    ∃ l, d.locate p = .ok l ∧ d.get? l = some (.file old) ∧
      d.modify p f = .ok (d.set l (.file (f old))) ∧
      Agrees (· = l) d (d.set l (.file (f old))) := by
  obtain ⟨l, hl, hopen, hfile⟩ := read_eq_ok.mp h
  have hne : d.get? l ≠ some .directory := by rw [hfile]; exact nofun
  refine ⟨l, hl, hfile, ?_, outline_set _ hfile, fun {k} hk => ?_⟩
  · exact modify_of_read hl hopen hfile f
  · rw [get?_set d (ne_nil_of_not_directory hne), if_neg hk]

end PropShear.Disk
