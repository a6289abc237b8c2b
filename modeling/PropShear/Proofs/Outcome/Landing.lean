import PropShear.Outcome.Output
import PropShear.Proofs.Disk.Growth

/-! Where outputs land.

Writing an outcome touches the file of its output and the file of its source map, and no other, even
if it fails half-way (`write_grows`). An output that is written is what the file holds
(`write_ok`), until an outcome that is written later lands on it (`Writes.keeps`). -/
namespace PropShear.Outcome

/-- The path of the source map beside an output. -/
def mapPath (target : Path) : Path := target.withName (mapName target)

/-- The output of a stripped file, or its source map, is at a location. -/
def LandsAt (o : Outcome) (d : Disk) (directory root : Option Path) (l : Location) : Prop :=
  o.status = .stripped ∧
    (d.locate (target d.cwd o.path directory root) = .ok l ∨
      o.map.isSome = true ∧ d.locate (mapPath (target d.cwd o.path directory root)) = .ok l)

variable {o : Outcome} {d d' : Disk} {directory root : Option Path}

/-- Outputs stay where they are while the tree grows. -/
theorem LandsAt.grow {places : Location → Prop} {l : Location} (h : o.LandsAt d directory root l)
    (hgrows : Disk.Grows places d d') : o.LandsAt d' directory root l := by
  refine ⟨h.1, ?_⟩
  rw [hgrows.cwd]
  rcases h.2 with hl | ⟨hmap, hl⟩
  · exact .inl (hgrows.locate hl)
  · exact .inr ⟨hmap, hgrows.locate hl⟩

/-! ### One outcome -/

theorem andThen_error {step : Disk → Except Disk.Error Disk}
    {next : Disk → Disk × Except Disk.Error (Option Path)} {e : Disk.Error}
    (h : step d = .error e) : andThen d step next = (d, .error e) := by
  rw [andThen, h]

theorem andThen_ok {step : Disk → Except Disk.Error Disk}
    {next : Disk → Disk × Except Disk.Error (Option Path)} (h : step d = .ok d') :
    andThen d step next = next d' := by
  rw [andThen, h]

/-- How far writing an outcome comes: it is not stripped, a step fails, or all steps succeed. -/
inductive WriteEnds (o : Outcome) (d : Disk) (directory root : Option Path) :
    Disk × Except Disk.Error (Option Path) → Prop
  | ignored (h : o.status ≠ .stripped) : WriteEnds o d directory root (d, .ok none)
  | noDirectory {e : Disk.Error} : WriteEnds o d directory root (d, .error e)
  | noMap {d₁ : Disk} {e : Disk.Error}
      (hmade : d.ensureDirectory (target d.cwd o.path directory root).parent = .ok d₁) :
    WriteEnds o d directory root (d₁, .error e)
  | noOutput {d₁ d₂ : Disk} {e : Disk.Error} (h : o.status = .stripped)
      (hmade : d.ensureDirectory (target d.cwd o.path directory root).parent = .ok d₁)
      (hmap : o.writeMap d₁ (target d.cwd o.path directory root) = .ok d₂) :
    WriteEnds o d directory root (d₂, .error e)
  | done {d₁ d₂ d₃ : Disk} (h : o.status = .stripped)
      (hmade : d.ensureDirectory (target d.cwd o.path directory root).parent = .ok d₁)
      (hmap : o.writeMap d₁ (target d.cwd o.path directory root) = .ok d₂)
      (hwritten : d₂.writeText (target d.cwd o.path directory root)
        (o.outputText (target d.cwd o.path directory root)) = .ok d₃) :
    WriteEnds o d directory root (d₃, .ok (some (target d.cwd o.path directory root)))

theorem write_ends (o : Outcome) (d : Disk) (directory root : Option Path) :
    WriteEnds o d directory root (o.write d directory root) := by
  unfold write
  split
  · next h => exact .ignored h
  · next h =>
    rw [ne_eq, Decidable.not_not] at h
    dsimp only
    cases hmade : d.ensureDirectory (target d.cwd o.path directory root).parent with
    | error e =>
      rw [andThen_error hmade]
      exact .noDirectory
    | ok d₁ =>
      rw [andThen_ok hmade]
      cases hmap : o.writeMap d₁ (target d.cwd o.path directory root) with
      | error e =>
        rw [andThen_error hmap]
        exact .noMap hmade
      | ok d₂ =>
        rw [andThen_ok hmap]
        cases hwritten : d₂.writeText (target d.cwd o.path directory root)
          (o.outputText (target d.cwd o.path directory root)) with
        | error e =>
          rw [andThen_error hwritten]
          exact .noOutput h hmade hmap
        | ok d₃ =>
          rw [andThen_ok hwritten]
          exact .done h hmade hmap hwritten

/-- Writing a source map touches the file of the map only. -/
theorem writeMap_grows {target : Path} (h : o.writeMap d target = .ok d') :
    Disk.Grows (fun l => o.map.isSome = true ∧ d'.locate (mapPath target) = .ok l) d d' := by
  unfold writeMap at h
  split at h
  · cases h
    exact .refl _ d
  · next m hmap =>
    obtain ⟨l, hl, hgrows, -⟩ := Disk.write_grows h
    refine hgrows.mono ?_
    intro k hk
    rw [hk]
    exact ⟨by rw [hmap]; rfl, hgrows.locate hl⟩

/-- However writing an outcome ends, no file is touched but those where it lands. -/
theorem write_grows (o : Outcome) (d : Disk) (directory root : Option Path) :
    Disk.Grows (o.LandsAt (o.write d directory root).1 directory root) d
      (o.write d directory root).1 := by
  have hmap : ∀ {d₁ d₂ : Disk}, o.status = .stripped →
      d.ensureDirectory (target d.cwd o.path directory root).parent = .ok d₁ →
      o.writeMap d₁ (target d.cwd o.path directory root) = .ok d₂ →
      Disk.Grows (o.LandsAt d₂ directory root) d d₂ := by
    intro d₁ d₂ h hmade hmap
    have hdirectory := Disk.ensureDirectory_grows hmade
    have hwritten := writeMap_grows hmap
    refine (hdirectory.mono nofun).trans (hwritten.mono fun l hl => ⟨h, .inr ?_⟩)
    rw [hwritten.cwd, hdirectory.cwd]
    exact hl
  have hends := write_ends o d directory root
  generalize o.write d directory root = ended at hends ⊢
  cases hends with
  | ignored => exact .refl _ d
  | noDirectory => exact .refl _ d
  | noMap hmade => exact (Disk.ensureDirectory_grows hmade).mono nofun
  | noOutput h hmade hwritten => exact hmap h hmade hwritten
  | done h hmade hwritten houtput =>
    have hbefore := hmap h hmade hwritten
    obtain ⟨l, hl, hgrows, -⟩ := Disk.write_grows houtput
    refine (hbefore.mono fun k hk => hk.grow hgrows).trans (hgrows.mono ?_)
    intro k hk
    refine ⟨h, .inl ?_⟩
    rw [hk, hgrows.cwd, hbefore.cwd]
    exact hgrows.locate hl

/-- An outcome that is written is a stripped file, and its output is what the file then holds. -/
theorem write_ok {path : Path} (h : o.write d directory root = (d', .ok (some path))) :
    o.status = .stripped ∧ path = target d.cwd o.path directory root ∧
      d'.read path = .ok (Text.Utf8.encode (o.outputText path).toList) := by
  have hends := write_ends o d directory root
  rw [h] at hends
  cases hends with
  | done hstripped _ _ hwritten =>
    obtain ⟨l, -, -, hread⟩ := Disk.write_grows hwritten
    exact ⟨hstripped, rfl, hread⟩

/-! ### Many outcomes -/

/-- Outcomes are written one after another, and none of them fails. -/
inductive Writes (directory root : Option Path) : List Outcome → Disk → Disk → Prop
  | nil {d : Disk} : Writes directory root [] d d
  | cons {o : Outcome} {rest : List Outcome} {d d' d'' : Disk} {path : Path}
      (hwrite : o.write d directory root = (d', .ok (some path)))
      (hrest : Writes directory root rest d' d'') : Writes directory root (o :: rest) d d''

theorem Writes.grows {outcomes : List Outcome} (h : Writes directory root outcomes d d') :
    Disk.Grows (fun l => ∃ o ∈ outcomes, o.LandsAt d' directory root l) d d' := by
  induction h with
  | nil => exact .refl _ _
  | @cons o rest d d₁ d₂ path hwrite hrest ih =>
    have hfirst := write_grows o d directory root
    rw [hwrite] at hfirst
    refine (hfirst.mono fun l hl => ?_).trans (ih.mono fun l hl => ?_)
    · exact ⟨o, List.mem_cons_self, hl.grow ih⟩
    · obtain ⟨other, hother, hlands⟩ := hl
      exact ⟨other, List.mem_cons_of_mem o hother, hlands⟩

theorem Writes.trans {first rest : List Outcome} {d'' : Disk}
    (h : Writes directory root first d d') (h' : Writes directory root rest d' d'') :
    Writes directory root (first ++ rest) d d'' := by
  induction h with
  | nil => exact h'
  | cons hwrite _ ih => exact .cons hwrite (ih h')

theorem Writes.append {first rest : List Outcome}
    (h : Writes directory root (first ++ rest) d d') :
    ∃ mid, Writes directory root first d mid ∧ Writes directory root rest mid d' := by
  induction first generalizing d with
  | nil => exact ⟨d, .nil, h⟩
  | cons o more ih =>
    cases h with
    | cons hwrite hrest =>
      obtain ⟨mid, hmore, hlast⟩ := ih hrest
      exact ⟨mid, .cons hwrite hmore, hlast⟩

/-- An output stays as it was written unless a later outcome lands on it. -/
theorem Writes.keeps {before after : List Outcome} {path : Path}
    (h : Writes directory root (before ++ o :: after) d d')
    (hpath : path = target d.cwd o.path directory root)
    (hafter : ∀ later ∈ after, ∀ l, d'.locate path = .ok l → ¬ later.LandsAt d' directory root l) :
    d'.read path = .ok (Text.Utf8.encode (o.outputText path).toList) := by
  obtain ⟨mid, hbefore, hrest⟩ := h.append
  cases hrest with
  | cons hwrite hlast =>
    obtain ⟨-, rfl, hread⟩ := write_ok hwrite
    rw [hbefore.grows.cwd, ← hpath] at hread
    obtain ⟨l, hl, -⟩ := Disk.read_eq_ok.mp hread
    refine hlast.grows.read hl ?_ hread
    intro hlanded
    obtain ⟨later, hlater, hlands⟩ := hlanded
    exact hafter later hlater l (hlast.grows.locate hl) hlands

end PropShear.Outcome
