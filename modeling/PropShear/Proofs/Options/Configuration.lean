import PropShear.Options.File
import PropShear.Options.Settings
import PropShear.Proofs.Disk.Overwrite
import PropShear.Proofs.Options.Override
import PropShear.Proofs.Text.Utf8

/-! Which configuration files can be used.

The keys of a configuration are listed in order. That succeeds exactly if every two of them can be
compared (`exists_sorted?_iff`), and then the unknown ones among them can be listed too. So a file
that is loaded becomes settings, or its violations are reported (`checked_of_comparable`); and there
are three faults of a file that no message reports: a path that cannot be looked up, bytes that are
no text, and keys that cannot be compared (`load_unreported_iff`). -/
namespace PropShear

/-! ### Keys in order -/

namespace Value

/-- What a key that is no text is compared as. -/
def family? (v : Value) : Option Family := v.rank?.map Prod.fst

/-- Two keys can be compared: both are texts, or both belong to one family. -/
def Compares (a b : Value) : Prop :=
  (∃ s t, a = text s ∧ b = text t) ∨ ∃ family, a.family? = some family ∧ b.family? = some family

theorem isSome_beforeRank?_iff {r r' : Option (Family × Decimal)} :
    (beforeRank? r r').isSome = true ↔
      ∃ family, r.map Prod.fst = some family ∧ r'.map Prod.fst = some family := by
  rcases r with _ | ⟨f, x⟩
  · simp [beforeRank?]
  rcases r' with _ | ⟨g, y⟩
  · simp [beforeRank?]
  by_cases hfamily : f = g
  · simp [beforeRank?, hfamily]
  · simp [beforeRank?, hfamily, Ne.symm hfamily]

theorem isSome_before?_iff {a b : Value} : (before? a b).isSome = true ↔ Compares a b := by
  unfold before? Compares
  split
  · next s t => exact iff_of_true rfl (.inl ⟨s, t, rfl, rfl⟩)
  · next hother =>
    rw [isSome_beforeRank?_iff]
    constructor
    · exact .inr
    · rintro (⟨s, t, rfl, rfl⟩ | hfamily)
      · exact absurd rfl (hother s t rfl)
      · exact hfamily

theorem Compares.symm {a b : Value} (h : Compares a b) : Compares b a := by
  rcases h with ⟨s, t, ha, hb⟩ | ⟨family, ha, hb⟩
  · exact .inl ⟨t, s, hb, ha⟩
  · exact .inr ⟨family, hb, ha⟩

theorem Compares.trans {a b c : Value} (h : Compares a b) (h' : Compares b c) : Compares a c := by
  rcases h with ⟨s, t, ha, hb⟩ | ⟨family, ha, hb⟩ <;>
    rcases h' with ⟨t', u, hb', hc⟩ | ⟨family', hb', hc⟩
  · exact .inl ⟨s, u, ha, hc⟩
  · rw [hb] at hb'
    cases hb'
  · rw [hb'] at hb
    cases hb
  · cases hb.symm.trans hb'
    exact .inr ⟨family, ha, hc⟩

/-- Every two of the keys can be compared. -/
def Comparable (keys : List Value) : Prop := keys.Pairwise Compares

theorem comparable_perm {keys keys' : List Value} (h : keys.Perm keys') :
    Comparable keys ↔ Comparable keys' := h.pairwise_iff Compares.symm

section Insert

variable {key k : Value} {keys rest sorted : List Value}

theorem insertSorted?_cons_none (h : before? key k = Option.none) :
    insertSorted? key (k :: rest) = Option.none := by
  rw [insertSorted?, h]
  rfl

theorem insertSorted?_cons_true (h : before? key k = some true) :
    insertSorted? key (k :: rest) = some (key :: k :: rest) := by
  rw [insertSorted?, h]
  rfl

theorem insertSorted?_cons_false (h : before? key k = some false) :
    insertSorted? key (k :: rest) = (insertSorted? key rest).map (k :: ·) := by
  rw [insertSorted?, h]
  show (insertSorted? key rest >>= _) = _
  cases insertSorted? key rest with
  | none => rfl
  | some more => rfl

/-- A key finds its place among keys that can be compared if it can be compared with all of
them. -/
theorem exists_insertSorted?_iff (h : Comparable keys) :
    (∃ sorted, insertSorted? key keys = some sorted) ↔ ∀ k ∈ keys, Compares key k := by
  induction keys with
  | nil => simp [insertSorted?]
  | cons k rest ih =>
    obtain ⟨hk, hrest⟩ := List.pairwise_cons.mp h
    rw [List.forall_mem_cons]
    cases hbefore : before? key k with
    | none =>
      have hnot : ¬ Compares key k := by simp [← isSome_before?_iff, hbefore]
      simp [insertSorted?_cons_none hbefore, hnot]
    | some first =>
      -- One comparison stands for all: the others can be compared with `k`.
      have hkey : Compares key k := isSome_before?_iff.mp (by rw [hbefore]; rfl)
      have hall : ∀ l ∈ rest, Compares key l := fun l hl => hkey.trans (hk l hl)
      refine iff_of_true ?_ ⟨hkey, hall⟩
      cases first with
      | true => exact ⟨_, insertSorted?_cons_true hbefore⟩
      | false =>
        obtain ⟨sorted, hsorted⟩ := (ih hrest).mpr hall
        exact ⟨k :: sorted, by rw [insertSorted?_cons_false hbefore, hsorted, Option.map_some]⟩

theorem perm_insertSorted? (h : insertSorted? key keys = some sorted) :
    sorted.Perm (key :: keys) := by
  induction keys generalizing sorted with
  | nil =>
    cases h
    exact .refl _
  | cons k rest ih =>
    cases hbefore : before? key k with
    | none =>
      rw [insertSorted?_cons_none hbefore] at h
      cases h
    | some first =>
      cases first with
      | true =>
        rw [insertSorted?_cons_true hbefore] at h
        cases h
        exact .refl _
      | false =>
        rw [insertSorted?_cons_false hbefore] at h
        obtain ⟨more, hmore, rfl⟩ := Option.map_eq_some_iff.mp h
        exact ((ih hmore).cons k).trans (.swap key k rest)

end Insert

/-- Keys that are put in their places one after another, among keys that can be compared. -/
theorem exists_foldlM_iff (keys : List Value) {placed : List Value} (h : Comparable placed) :
    (∃ sorted, keys.foldlM (fun ks k => insertSorted? k ks) placed = some sorted) ↔
      Comparable (keys ++ placed) := by
  induction keys generalizing placed with
  | nil => simpa using h
  | cons key rest ih =>
    rw [List.foldlM_cons]
    cases hinsert : insertSorted? key placed with
    | none =>
      have hnot : ¬ ∀ k ∈ placed, Compares key k := by
        rw [← exists_insertSorted?_iff h, hinsert]
        simp
      refine iff_of_false (by simp) fun hall => hnot fun k hk => ?_
      exact (List.pairwise_cons.mp hall).1 k (List.mem_append_right rest hk)
    | some sorted =>
      have hkey := (exists_insertSorted?_iff h).mp ⟨sorted, hinsert⟩
      have hperm := perm_insertSorted? hinsert
      have hsorted : Comparable sorted :=
        (comparable_perm hperm).mpr (List.pairwise_cons.mpr ⟨hkey, h⟩)
      refine (ih hsorted).trans (comparable_perm ?_)
      exact (hperm.append_left rest).trans List.perm_middle

/-- Keys can be put in order exactly if every two of them can be compared. -/
theorem exists_sorted?_iff {keys : List Value} :
    (∃ sorted, sorted? keys = some sorted) ↔ Comparable keys := by
  have hsorted := exists_foldlM_iff keys List.Pairwise.nil
  rwa [List.append_nil] at hsorted

end Value

/-! ### Settings -/

namespace Options

/-- The keys that have no meaning. -/
def unknown (entries : List (Value × Value)) : List Value :=
  (entries.map (·.1)).filter fun key => !knownKeys.any fun k => Value.same key (.text k)

theorem comparable_unknown {entries : List (Value × Value)}
    (h : Value.Comparable (entries.map (·.1))) : Value.Comparable (unknown entries) :=
  h.sublist List.filter_sublist

/-- The message that lists violations. -/
def refusal (name : String) (wrong : List String) : String :=
  String.intercalate "; " (wrong.map fun v => name ++ " | " ++ v)

end Options

namespace Settings

open Options

variable {options : Value} {entries : List (Value × Value)}

theorem ofOptions_invalid (h : violations options ≠ []) (name : String) :
    ofOptions options name =
      .error (.invalid (refusal name (violations options)) (violations options)) := by
  unfold ofOptions
  dsimp only
  rw [if_neg (by simpa using h)]
  rfl

theorem ofOptions_valid (hkeys : Value.Comparable (unknown entries))
    (h : violations (.map entries) = []) (name : String) :
    Succeeds (ofOptions (.map entries) name) := by
  obtain ⟨sorted, hsorted⟩ := Value.exists_sorted?_iff.mpr hkeys
  have hwarnings : ∃ warnings, unknownKeys name entries = .ok warnings := by
    unfold unknown at hsorted
    unfold unknownKeys
    dsimp only
    rw [hsorted]
    exact ⟨_, rfl⟩
  obtain ⟨warnings, hwarnings⟩ := hwarnings
  unfold ofOptions
  dsimp only
  rw [h, hwarnings]
  exact ⟨_, rfl⟩

/-- Options become settings unless they have violations, and these are reported. -/
def Checked (options : Value) (name : String) : Prop :=
  (violations options = [] → Succeeds (ofOptions options name)) ∧
    (violations options ≠ [] → ofOptions options name =
      .error (.invalid (refusal name (violations options)) (violations options)))

theorem checked_of_comparable (h : Value.Comparable (entries.map (·.1))) (name : String) :
    Checked (.map entries) name :=
  ⟨fun hvalid => ofOptions_valid (comparable_unknown h) hvalid name,
    fun hwrong => ofOptions_invalid hwrong name⟩

end Settings

/-! ### Files -/

namespace Options

/-- The bytes of a file are those of no text. -/
def IllEncoded (d : Disk) (path : Path) : Prop :=
  ∃ bytes, d.read path = .ok bytes ∧ ∀ s, Text.Utf8.encode s ≠ bytes

/-- A path cannot even be looked up. -/
def Refused (d : Disk) (path : Path) : Prop := ∃ e, d.probeFile path = .error e

/-- The document in a file has these entries. -/
def Holds (loader : Loader) (d : Disk) (path : Path) (entries : List (Value × Value)) : Prop :=
  ∃ text document, d.readText path = .ok text ∧ loader text.toList = .ok document ∧
    documentEntries path document = .ok entries

/-- The document in a file has keys that cannot be compared. -/
def Unorderable (loader : Loader) (d : Disk) (path : Path) : Prop :=
  ∃ entries, Holds loader d path entries ∧ ¬ Value.Comparable (entries.map (·.1))

/-- A file has a fault that no message reports. -/
def Faulty (loader : Loader) (d : Disk) (path : Path) : Prop :=
  Refused d path ∨ IllEncoded d path ∨ Unorderable loader d path

variable {loader : Loader} {d : Disk} {path : Path} {entries : List (Value × Value)}
  {err : FileError}

theorem illEncoded_iff : IllEncoded d path ↔ ∃ e, d.readText path = .error (.encoding e) := by
  unfold IllEncoded Disk.readText
  cases hread : d.read path with
  | error e => simp
  | ok bytes =>
    dsimp only
    cases hdecode : Text.Utf8.decode bytes with
    | error e =>
      refine iff_of_true ⟨bytes, rfl, fun s hs => ?_⟩ ⟨e, rfl⟩
      rw [Text.Utf8.decode_eq_ok_iff.mpr hs] at hdecode
      cases hdecode
    | ok s =>
      refine iff_of_false ?_ (by simp)
      rintro ⟨same, hsame, hnone⟩
      cases hsame
      exact hnone s (Text.Utf8.decode_eq_ok_iff.mp hdecode)

theorem documentEntries_error {document : Value} (h : documentEntries path document = .error err) :
    err = .notMapping path := by
  unfold documentEntries at h
  split at h
  · split at h
    · cases h
    · cases h
  · cases h
    rfl

theorem isFile_of_refused (h : Refused d path) : ∃ e, isFile d path = .error (.refused e) := by
  obtain ⟨e, he⟩ := h
  unfold isFile
  rw [he]
  exact ⟨e, rfl⟩

theorem isFile_of_not_refused (h : ¬ Refused d path) : ∃ found, isFile d path = .ok found := by
  unfold isFile
  cases hprobe : d.probeFile path with
  | error e => exact absurd ⟨e, hprobe⟩ h
  | ok found => exact ⟨found, rfl⟩

theorem isFile_of_read {bytes : List UInt8} (h : d.read path = .ok bytes) :
    isFile d path = .ok true := by
  unfold isFile
  rw [Disk.probeFile_of_read h]

theorem isFile_of_readText {text : String} (h : d.readText path = .ok text) :
    isFile d path = .ok true := by
  unfold Disk.readText at h
  cases hread : d.read path with
  | error e =>
    rw [hread] at h
    cases h
  | ok bytes => exact isFile_of_read hread

theorem readFile_of_refused (h : Refused d path) :
    ∃ e, readFile loader d path = .error (.refused e) := by
  obtain ⟨e, he⟩ := isFile_of_refused h
  unfold readFile
  rw [he]
  exact ⟨e, rfl⟩

theorem readFile_of_illEncoded (h : IllEncoded d path) :
    ∃ e, readFile loader d path = .error (.badEncoding e) := by
  obtain ⟨e, he⟩ := illEncoded_iff.mp h
  obtain ⟨bytes, hread, -⟩ := h
  unfold readFile
  rw [isFile_of_read hread, he]
  exact ⟨e, rfl⟩

theorem readFile_of_holds (h : Holds loader d path entries) :
    (Value.Comparable (entries.map (·.1)) ∧
        ∃ note, readFile loader d path = .ok (entries, note)) ∨
      (¬ Value.Comparable (entries.map (·.1)) ∧
        readFile loader d path = .error .unsortableKeys) := by
  obtain ⟨text, document, htext, hload, hentries⟩ := h
  rw [← Value.exists_sorted?_iff]
  unfold readFile
  rw [isFile_of_readText htext, htext]
  dsimp only [bind, Except.bind, pure, Except.pure]
  rw [hload]
  dsimp only
  rw [hentries]
  dsimp only
  cases Value.sorted? (entries.map (·.1)) with
  | none => exact .inr ⟨by simp, rfl⟩
  | some keys => exact .inl ⟨⟨keys, rfl⟩, _, rfl⟩

theorem readFile_otherwise (hlookup : ¬ Refused d path) (hencoding : ¬ IllEncoded d path)
    (hholds : ¬ ∃ entries, Holds loader d path entries) :
    ∃ err message, readFile loader d path = .error err ∧ err.message? = some message := by
  obtain ⟨found, hfound⟩ := isFile_of_not_refused hlookup
  unfold readFile
  rw [hfound]
  cases found with
  | false => exact ⟨_, _, rfl, rfl⟩
  | true =>
    dsimp only [bind, Except.bind, pure, Except.pure]
    cases htext : d.readText path with
    | error e =>
      cases e with
      | disk e => exact ⟨_, _, rfl, rfl⟩
      | encoding e => exact absurd (illEncoded_iff.mpr ⟨e, htext⟩) hencoding
    | ok text =>
      dsimp only
      cases hload : loader text.toList with
      | error reason => exact ⟨_, _, rfl, rfl⟩
      | ok document =>
        dsimp only
        cases hentries : documentEntries path document with
        | error err =>
          rw [documentEntries_error hentries]
          exact ⟨_, _, rfl, rfl⟩
        | ok entries => exact absurd ⟨entries, text, document, htext, hload, hentries⟩ hholds

/-- A file is read, has a fault that no message reports, or one that a message does. -/
theorem readFile_cases (loader : Loader) (d : Disk) (path : Path) :
    (∃ entries note, readFile loader d path = .ok (entries, note) ∧
      Value.Comparable (entries.map (·.1))) ∨
    (∃ err, readFile loader d path = .error err ∧ err.message? = none ∧ Faulty loader d path) ∨
    ∃ err message, readFile loader d path = .error err ∧ err.message? = some message := by
  by_cases hlookup : Refused d path
  · obtain ⟨e, he⟩ := readFile_of_refused hlookup
    exact .inr (.inl ⟨_, he, rfl, .inl hlookup⟩)
  by_cases hencoding : IllEncoded d path
  · obtain ⟨e, he⟩ := readFile_of_illEncoded hencoding
    exact .inr (.inl ⟨_, he, rfl, .inr (.inl hencoding)⟩)
  by_cases hholds : ∃ entries, Holds loader d path entries
  · obtain ⟨entries, hentries⟩ := hholds
    rcases readFile_of_holds hentries with ⟨hkeys, note, hok⟩ | ⟨hnot, herr⟩
    · exact .inl ⟨entries, note, hok, hkeys⟩
    · exact .inr (.inl ⟨_, herr, rfl, .inr (.inr ⟨entries, hentries, hnot⟩)⟩)
  · exact .inr (.inr (readFile_otherwise hlookup hencoding hholds))

theorem readFile_unreported_iff :
    (∃ err, readFile loader d path = .error err ∧ err.message? = none) ↔ Faulty loader d path := by
  constructor
  · rintro ⟨err, herr, hnone⟩
    rcases readFile_cases loader d path with ⟨entries, note, hok, -⟩ | ⟨-, -, -, hfault⟩ |
      ⟨reported, message, hreported, hmessage⟩
    · cases hok.symm.trans herr
    · exact hfault
    · cases hreported.symm.trans herr
      cases hmessage.symm.trans hnone
  · rintro (hlookup | hencoding | ⟨entries, hholds, hnot⟩)
    · obtain ⟨e, he⟩ := readFile_of_refused hlookup
      exact ⟨_, he, rfl⟩
    · obtain ⟨e, he⟩ := readFile_of_illEncoded hencoding
      exact ⟨_, he, rfl⟩
    · rcases readFile_of_holds hholds with ⟨hkeys, -⟩ | ⟨-, herr⟩
      · exact absurd hkeys hnot
      · exact ⟨_, herr, rfl⟩

theorem comparable_of_readFile {note : Log.Record}
    (h : readFile loader d path = .ok (entries, note)) : Value.Comparable (entries.map (·.1)) := by
  rcases readFile_cases loader d path with ⟨held, note', hok, hkeys⟩ | ⟨err, herr, -⟩ |
    ⟨err, -, herr, -⟩
  · cases hok.symm.trans h
    exact hkeys
  · cases herr.symm.trans h
  · cases herr.symm.trans h

section Load

variable {e : Environment} {directory : Path} {asked : Option Path}

theorem firstFile_error {paths : List Path} (h : firstFile d paths = .error err) :
    ∃ path ∈ paths, ∃ e, err = .refused e ∧ d.probeFile path = .error e := by
  induction paths with
  | nil => cases h
  | cons path rest ih =>
    unfold firstFile isFile at h
    cases hprobe : d.probeFile path with
    | error e =>
      rw [hprobe] at h
      cases h
      exact ⟨path, List.mem_cons_self, e, rfl, hprobe⟩
    | ok found =>
      rw [hprobe] at h
      cases found with
      | true => cases h
      | false =>
        obtain ⟨other, hother, hrefused⟩ := ih h
        exact ⟨other, List.mem_cons_of_mem path hother, hrefused⟩

/-- No file is found because a path cannot be looked up. -/
theorem findFile_error (h : findFile e d directory asked = .error err) :
    ∃ name ∈ fileNames, ∃ e, err = .refused e ∧
      d.probeFile (directory.join (Path.ofText name.toList)) = .error e := by
  unfold findFile at h
  split at h
  · cases h
  · cases h
  · obtain ⟨path, hpath, hrefused⟩ := firstFile_error h
    obtain ⟨name, hname, rfl⟩ := List.mem_map.mp hpath
    exact ⟨name, hname, hrefused⟩

/-- The outline of the tree tells which file is found. -/
theorem findFile_congr {d' : Disk} (h : d'.outline = d.outline) :
    findFile e d' directory asked = findFile e d directory asked := by
  have hisFile : isFile d' = isFile d := by
    funext path
    rw [isFile, isFile, Disk.probeFile_congr h]
  have hfirst : ∀ paths, firstFile d' paths = firstFile d paths := by
    intro paths
    induction paths with
    | nil => rfl
    | cons path rest ih => rw [firstFile, firstFile, hisFile, ih]
  unfold findFile
  split
  · rfl
  · rfl
  · exact hfirst _

/-- What is loaded depends on the file that is found and on no other. -/
theorem load_congr {d' : Disk} (h : d'.outline = d.outline)
    (hread : ∀ path, findFile e d directory asked = .ok (some path) →
      d'.readText path = d.readText path) :
    load loader e d' directory asked = load loader e d directory asked := by
  unfold load
  rw [findFile_congr h]
  rcases hfind : findFile e d directory asked with err | _ | path
  · rfl
  · rfl
  · show (readFile loader d' path >>= _) = (readFile loader d path >>= _)
    unfold readFile isFile
    rw [Disk.probeFile_congr h, hread path hfind]

/-- The configuration file cannot be looked for, or has a fault that no message reports. -/
def Unreported (loader : Loader) (e : Environment) (d : Disk) (directory : Path)
    (asked : Option Path) : Prop :=
  (∃ err, findFile e d directory asked = .error err) ∨
    ∃ path, findFile e d directory asked = .ok (some path) ∧ Faulty loader d path

theorem load_unreported_iff :
    (∃ err, load loader e d directory asked = .error err ∧ err.message? = none) ↔
      Unreported loader e d directory asked := by
  unfold load Unreported
  cases hfind : findFile e d directory asked with
  | error err =>
    obtain ⟨-, -, refusal, rfl, -⟩ := findFile_error hfind
    exact iff_of_true ⟨_, rfl, rfl⟩ (.inl ⟨_, rfl⟩)
  | ok found =>
    cases found with
    | none => simp [bind, Except.bind, pure, Except.pure]
    | some path =>
      simp only [Except.ok.injEq, Option.some.injEq, exists_eq_left', reduceCtorEq, exists_false,
        false_or, ← readFile_unreported_iff]
      dsimp only [bind, Except.bind, pure, Except.pure]
      cases readFile loader d path with
      | error err => simp
      | ok made => simp

theorem comparable_of_load {notes : List Log.Record}
    (h : load loader e d directory asked = .ok (entries, notes)) :
    Value.Comparable (entries.map (·.1)) := by
  obtain ⟨found, -, hload⟩ := bind_eq_ok h
  cases found with
  | none =>
    cases hload
    exact List.Pairwise.nil
  | some path =>
    obtain ⟨⟨held, note⟩, hread, hmade⟩ := bind_eq_ok hload
    cases hmade
    exact comparable_of_readFile hread

end Load

/-! ### Options on top -/

/-- Keys that are set on top of others, all of them known, leave the unknown ones as they are. -/
theorem unknown_merge {overrides : List (Value × Value)}
    (h : ∀ entry ∈ overrides, ∃ t ∈ knownKeys, entry.1 = .text t) (entries : List (Value × Value)) :
    unknown (merge entries overrides) = unknown entries := by
  have hset : ∀ l : List (Value × Value), (∀ entry ∈ l, ∃ t ∈ knownKeys, entry.1 = .text t) →
      ∀ entries, unknown (l.foldl (fun m entry => Value.setEntry entry.1 entry.2 m) entries) =
        unknown entries := by
    intro l hl
    induction l with
    | nil => exact fun entries => rfl
    | cons entry rest ih =>
      intro entries
      rw [List.forall_mem_cons] at hl
      obtain ⟨⟨t, ht, hentry⟩, hrest⟩ := hl
      rw [List.foldl_cons, ih hrest, hentry]
      refine Value.keys_setEntry entry.2 entries ?_
      exact List.any_eq_true.mpr ⟨t, ht, Value.same_text.mpr rfl⟩
  exact hset _ (fun entry hentry => h entry (List.mem_filter.mp hentry).1) entries

end Options
end PropShear
