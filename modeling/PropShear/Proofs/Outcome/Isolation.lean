import PropShear.Proofs.Disk.Discovery
import PropShear.Proofs.Outcome.Pool
import PropShear.Proofs.Outcome.Report
import PropShear.Proofs.Text.Utf8

/-! Files do not influence each other.

What becomes of a file only depends on where it is and what is in it (`ofFile_congr`). A run writes
a log while it goes on, so each file is met as it is after something was logged
(`ofFiles_collects`); unless it is the log itself, that makes no difference (`yields_eq`). So
several workers come to the same outcomes as one, and a file that fails changes no outcome but its
own (`ofPaths_isolates`). Three errors are not contained and end the whole run: a path whose lookup
is refused, a path that cannot be resolved, and an escape that names too large a number
(`ofPaths_crashes`). -/
namespace PropShear

/-! ### What ends a run -/

namespace Disk

variable {d : Disk} {p : Path}

theorem refusal?_eq_some {text : List Char} {t : Trouble} (h : refusal? text = some t) :
    t = .nullCharacter ∨ t = .nameTooLong := by
  unfold refusal? at h
  split at h
  · cases h
    exact .inl rfl
  · split at h
    · cases h
      exact .inr rfl
    · cases h

theorem obstacle?_eq_some {l : Location} {name : List Char} {t : Trouble}
    (h : d.obstacle? l name = some t) : t.isAbsence = true ∨ t = .denied ∨ t = .nameTooLong := by
  unfold obstacle? at h
  split at h
  · cases h
    exact .inl rfl
  · cases h
    exact .inl rfl
  · split at h
    · cases h
      exact .inr (.inl rfl)
    · split at h
      · cases h
        exact .inr (.inr rfl)
      · cases h

theorem follow_error {l : Location} {names : List (List Char)} {t : Trouble}
    (h : d.follow l names = .error t) : t.isAbsence = true ∨ t = .denied ∨ t = .nameTooLong := by
  induction names generalizing l with
  | nil => cases h
  | cons name rest ih =>
    rw [follow] at h
    cases hobstacle : d.obstacle? l name with
    | some t' =>
      rw [hobstacle] at h
      cases h
      exact obstacle?_eq_some hobstacle
    | none =>
      rw [hobstacle] at h
      exact ih h

/-- A lookup is refused for want of access or because something is too long. -/
theorem probe_error {e : Error} (h : d.probe p = .error e) :
    e.trouble = .denied ∨ e.trouble = .nameTooLong := by
  have hcases : ∀ e, d.locate p = .error e →
      e.trouble.isAbsence = true ∨ e.trouble = .denied ∨ e.trouble = .nameTooLong := by
    intro e he
    unfold locate at he
    split at he
    · next t ht =>
      cases he
      rcases refusal?_eq_some ht with rfl | rfl
      · exact .inl rfl
      · exact .inr (.inr rfl)
    · split at he
      · cases he
      · next t ht =>
        cases he
        exact follow_error ht
  unfold probe at h
  split at h
  · cases h
  · next e' he =>
    split at h
    · cases h
    · next hpresent =>
      cases h
      exact (hcases _ he).resolve_left hpresent

/-- The first lookup that is refused ends the search for files. -/
theorem findSources_error {paths : List Path} {e : Error} (h : d.findSources paths = .error e) :
    ∃ p ∈ paths, d.probe p = .error e := by
  have herrs : Errs (fun e => ∃ p ∈ paths, d.probe p = .error e) (paths.mapM d.search) := by
    refine .mapM fun p hp e he => ⟨p, hp, ?_⟩
    unfold search at he
    cases hprobe : d.probe p with
    | error e' =>
      rw [hprobe] at he
      cases he
      rfl
    | ok entry =>
      rw [hprobe] at he
      cases he
  unfold findSources at h
  cases hmapM : paths.mapM d.search with
  | error e' =>
    rw [hmapM] at h
    cases h
    exact herrs _ hmapM
  | ok lists =>
    rw [hmapM] at h
    cases h

/-- A path has no absolute form: there is a null character in it, or the working directory is gone.
-/
def Lost (d : Disk) (p : Path) : Prop :=
  '\x00' ∈ p.toText ∨ p.isAbsolute = false ∧ d.get? d.cwd ≠ some .directory

theorem exists_resolve?_error_iff : (∃ e, d.resolve? p = .error e) ↔ d.Lost p := by
  unfold resolve? Lost
  rw [List.contains_eq_mem]
  by_cases hnull : '\x00' ∈ p.toText
  · simp [hnull]
  · cases habsolute : p.isAbsolute with
    | true => simp [hnull]
    | false =>
      unfold directory?
      by_cases hcwd : d.get? d.cwd = some .directory
      · simp [hnull, hcwd, Except.map]
      · simp [hnull, hcwd, Except.map]

end Disk

/-! ### One file -/

/-- The text that is left is determined by the text that was given. -/
theorem Stripper.Makes.unique {parse : Parser} {s : Stripper} {id code : String}
    {made made' : Except Error (Option Stripped)} (h : s.Makes parse id code made)
    (h' : s.Makes parse id code made') :
    made'.map (Option.map Stripped.code) = made.map (Option.map Stripped.code) := by
  cases h with
  | nothing hskip =>
    cases h' with
    | nothing => rfl
    | cut heligible => cases hskip.symm.trans heligible
    | unparsed heligible => cases hskip.symm.trans heligible
    | overflow heligible => cases hskip.symm.trans heligible
  | cut heligible hparse hfind hleft =>
    cases h' with
    | nothing hskip => cases hskip.symm.trans heligible
    | cut _ hparse' hfind' hleft' =>
      cases hparse.symm.trans hparse'
      rw [← Except.ok.inj (hfind.symm.trans hfind'), ← hleft] at hleft'
      have hcode := String.toList_inj.mp (Text.Utf8.encode_injective hleft')
      exact congrArg (fun code => Except.ok (some code)) hcode
    | unparsed _ hparse' => cases hparse.symm.trans hparse'
    | overflow _ hparse' hfind' =>
      cases hparse.symm.trans hparse'
      cases hfind.symm.trans hfind'
  | unparsed heligible hparse =>
    cases h' with
    | nothing hskip => cases hskip.symm.trans heligible
    | cut _ hparse' => cases hparse.symm.trans hparse'
    | unparsed _ hparse' =>
      cases hparse.symm.trans hparse'
      rfl
    | overflow _ hparse' => cases hparse.symm.trans hparse'
  | overflow heligible hparse hfind =>
    cases h' with
    | nothing hskip => cases hskip.symm.trans heligible
    | cut _ hparse' hfind' =>
      cases hparse.symm.trans hparse'
      cases hfind.symm.trans hfind'
    | unparsed _ hparse' => cases hparse.symm.trans hparse'
    | overflow => rfl

namespace Outcome

theorem Runs.unique {parse : Parser} {id code : String} {strippers : List Stripper}
    {result result' : Except Stripper.Error String} (h : Runs parse id strippers code result)
    (h' : Runs parse id strippers code result') : result' = result := by
  induction h with
  | done =>
    cases h' with
    | done => rfl
  | skip hmakes _ ih =>
    cases h' with
    | skip _ hrest' => exact ih hrest'
    | cut hmakes' => cases hmakes.unique hmakes'
    | stop hmakes' => cases hmakes.unique hmakes'
  | cut hmakes _ ih =>
    cases h' with
    | skip hmakes' => cases hmakes.unique hmakes'
    | cut hmakes' hrest' =>
      have hcode := Option.some.inj (Except.ok.inj (hmakes.unique hmakes'))
      exact ih (hcode ▸ hrest')
    | stop hmakes' => cases hmakes.unique hmakes'
  | stop hmakes =>
    cases h' with
    | skip hmakes' => cases hmakes.unique hmakes'
    | cut hmakes' => cases hmakes.unique hmakes'
    | stop hmakes' =>
      have herror := Except.error.inj (hmakes.unique hmakes')
      rw [herror]

variable {parse : Parser} {strippers : List Stripper}

/-- What becomes of a file depends on no other file. -/
theorem ofFile_congr {d d' : Disk} {path : Path} (h : d'.outline = d.outline)
    (hentry : d'.entryAt? path = d.entryAt? path) :
    ofFile parse strippers d' path = ofFile parse strippers d path := by
  rw [ofFile, ofFile, Disk.readText_congr h hentry, Disk.resolve?_congr h]

/-- An escape in the file, or in what a stripper leaves of it, names too large a number. -/
def Overflows (parse : Parser) (strippers : List Stripper) (d : Disk) (path : Path) : Prop :=
  ∃ source, d.readText path = .ok source ∧
    Runs parse (d.resolve path).shown strippers source (.error (.fault .escapeTooLarge))

/-- A file goes without an outcome if its path cannot be resolved or an escape in it is too large,
and for no other reason. -/
theorem exists_ofFile_error_iff (htiled : parse.Tiled) {d : Disk} {path : Path} :
    (∃ crash, (ofFile parse strippers d path).1 = .error crash) ↔
      d.Lost path ∨ Overflows parse strippers d path := by
  have hreported := ofFile_reported htiled strippers d path
  rw [← Disk.exists_resolve?_error_iff]
  generalize (ofFile parse strippers d path).1 = made at hreported ⊢
  constructor
  · rintro ⟨crash, rfl⟩
    cases hreported with
    | lost hid => exact .inl ⟨_, hid⟩
    | overflow _ hread hruns => exact .inr ⟨_, hread, hruns⟩
  · intro h
    cases hreported with
    | lost hid => exact ⟨_, rfl⟩
    | overflow _ hread hruns => exact ⟨_, rfl⟩
    | unreadable hid hread =>
      rcases h with ⟨e, he⟩ | ⟨source, hsource, -⟩
      · cases hid.symm.trans he
      · cases hread.symm.trans hsource
    | rejected hid hread hruns =>
      rcases h with ⟨e, he⟩ | ⟨source, hsource, hoverflow⟩
      · cases hid.symm.trans he
      · cases hread.symm.trans hsource
        cases hruns.unique hoverflow
    | accepted hid hread hruns =>
      rcases h with ⟨e, he⟩ | ⟨source, hsource, hoverflow⟩
      · cases hid.symm.trans he
      · cases hread.symm.trans hsource
        cases hruns.unique hoverflow

/-! ### Many files -/

section Run

variable {σ : Type} {r : Log.Recorder σ} {s : σ}

theorem run_take (r : Log.Recorder σ) (parse : Parser) (strippers : List Stripper) (path : Path)
    (s : σ) : (take r parse strippers path).run s =
      ((ofFile parse strippers (r.disk s) path).1,
        r.logAll s (ofFile parse strippers (r.disk s) path).2) := rfl

/-- Each file is met as it is after something was logged. -/
theorem ofFiles_collects (r : Log.Recorder σ) (parse : Parser) (strippers : List Stripper)
    (files : List Path) (s : σ) :
    Collects (r.Yields (ofFile parse strippers) s) files
      ((ofFiles r parse strippers files).run s).1 := by
  induction files generalizing s with
  | nil => exact .nil
  | cons f rest ih =>
    have hlogged := r.logged_logAll s (ofFile parse strippers (r.disk s) f).2
    have htake := run_take r parse strippers f s
    rw [ofFiles, List.mapM_cons]
    cases hmade : (ofFile parse strippers (r.disk s) f).1 with
    | error crash =>
      rw [hmade] at htake
      rw [run_bind_error htake]
      exact .stop ⟨s, .refl, hmade⟩
    | ok o =>
      rw [hmade] at htake
      rw [run_bind_ok htake, fst_run_bind_pure]
      refine .cons ⟨s, .refl, hmade⟩ ((ih _).mono fun {g made} hyields => ?_)
      obtain ⟨t, ht, hlook⟩ := hyields
      exact ⟨t, hlogged.trans ht, hlook⟩

/-- A run only logs. -/
theorem ofFiles_logged (r : Log.Recorder σ) (parse : Parser) (strippers : List Stripper)
    (files : List Path) (s : σ) : r.Logged s ((ofFiles r parse strippers files).run s).2 := by
  induction files generalizing s with
  | nil => exact .refl
  | cons f rest ih =>
    have hlogged := r.logged_logAll s (ofFile parse strippers (r.disk s) f).2
    have htake := run_take r parse strippers f s
    rw [ofFiles, List.mapM_cons]
    cases hmade : (ofFile parse strippers (r.disk s) f).1 with
    | error crash =>
      rw [hmade] at htake
      rw [run_bind_error htake]
      exact hlogged
    | ok o =>
      rw [hmade] at htake
      rw [run_bind_ok htake, snd_run_bind_pure]
      exact hlogged.trans (ih _)

theorem ofPaths_refused (parse : Parser) (strippers : List Stripper) {paths : List Path}
    {e : Disk.Error} (h : (r.disk s).findSources paths = .error e) :
    (ofPaths r parse strippers paths).run s = (.error (.path e), s) := by
  rw [ofPaths, run_get_bind, h]
  rfl

theorem ofPaths_found (parse : Parser) (strippers : List Stripper) {paths files : List Path}
    (h : (r.disk s).findSources paths = .ok files) :
    (ofPaths r parse strippers paths).run s = (ofFiles r parse strippers files).run s := by
  rw [ofPaths, run_get_bind, h]

/-- Whatever is logged, a file that is no log gives the same. -/
theorem yields_eq {places : Location → Prop} (hconfined : r.Confined places s) {f : Path}
    (haway : (r.disk s).Away places f) {made : Except Crash Outcome}
    (h : r.Yields (ofFile parse strippers) s f made) :
    made = (ofFile parse strippers (r.disk s) f).1 := by
  obtain ⟨t, ht, rfl⟩ := h
  have hagrees := hconfined ht
  rw [ofFile, ofFile, hagrees.readText haway, Disk.resolve?_congr hagrees.outline]

/-- If none of the files is a log, they give what each gives by itself. -/
theorem ofFiles_eq_mapM {places : Location → Prop} (hconfined : r.Confined places s)
    {files : List Path} (haway : ∀ f ∈ files, (r.disk s).Away places f) :
    ((ofFiles r parse strippers files).run s).1 =
      files.mapM fun f => (ofFile parse strippers (r.disk s) f).1 :=
  (ofFiles_collects r parse strippers files s).eq_mapM fun f hf {_} =>
    yields_eq hconfined (haway f hf)

theorem ofPaths_logged (r : Log.Recorder σ) (parse : Parser) (strippers : List Stripper)
    (paths : List Path) (s : σ) : r.Logged s ((ofPaths r parse strippers paths).run s).2 := by
  cases h : (r.disk s).findSources paths with
  | error e =>
    rw [ofPaths_refused parse strippers h]
    exact .refl
  | ok files =>
    rw [ofPaths_found parse strippers h]
    exact ofFiles_logged r parse strippers files s

end Run

/-- **Failures are isolated.** A run over paths lists the files they stand for, if no lookup is
refused, and gives each the outcome that it has when something was logged before it. That is the
outcome of the file by itself, which says whether it could be read and parsed, unless logging
changes the file. If the log is none of the files, there is one outcome for each file, in order; the
run ends without outcomes exactly if the path of a file cannot be resolved or an escape in it is too
large; and workers that share the files collect the same. What is in other files changes neither the
list of files nor the outcome of a file. Workers always come to an end.

Trees have no links, and are changed by nobody but the log while a run goes on. -/
theorem ofPaths_isolates {parse : Parser} (htiled : parse.Tiled) {σ : Type} (r : Log.Recorder σ)
    (strippers : List Stripper) (s : σ) (paths : List Path) :
    let look := ofFile parse strippers
    let result := ((ofPaths r parse strippers paths).run s).1
    (∀ d f, Reported parse strippers d f (look d f).1) ∧
    (∀ d d', d'.outline = d.outline → d'.findSources paths = d.findSources paths ∧
      ∀ f, d'.entryAt? f = d.entryAt? f → look d' f = look d f) ∧
    (∀ e, (r.disk s).findSources paths = .error e → result = .error (.path e) ∧
      (∃ p ∈ paths, (r.disk s).probe p = .error e) ∧
      (e.trouble = .denied ∨ e.trouble = .nameTooLong)) ∧
    (∀ workers, WellFounded fun next now : Pool.State σ Path (Except Crash Outcome) =>
      Pool.Step r look workers now next) ∧
    ∀ files, (r.disk s).findSources paths = .ok files →
      files = paths.flatMap (r.disk s).sources ∧
      Collects (r.Yields look s) files result ∧
      (∀ workers now, Pool.Reaches r look workers s files now →
        (∀ collected, Pool.collect now.tasks = some collected →
          Collects (r.Yields look s) files collected) ∧
        (0 < workers → Pool.collect now.tasks = none →
          ∃ next, Pool.Step r look workers now next)) ∧
      ∀ places, r.Confined places s →
        (∀ f, (r.disk s).Away places f → ∀ made, r.Yields look s f made →
          made = (look (r.disk s) f).1) ∧
        ((∀ f ∈ files, (r.disk s).Away places f) →
          (∀ outcomes, result = .ok outcomes ↔
            files.map (fun f => (look (r.disk s) f).1) = outcomes.map .ok) ∧
          ((∃ crash, result = .error crash) ↔ ∃ f ∈ files,
            (r.disk s).Lost f ∨ Overflows parse strippers (r.disk s) f) ∧
          ∀ workers now collected, Pool.Reaches r look workers s files now →
            Pool.collect now.tasks = some collected → collected = result) := by
  intro look result
  refine ⟨fun d f => ofFile_reported htiled strippers d f, fun d d' h => ?_, fun e he => ?_,
    Pool.wellFounded_step r look, fun files hfiles => ?_⟩
  · exact ⟨Disk.findSources_congr h paths, fun f hentry => ofFile_congr h hentry⟩
  · obtain ⟨p, hp, hprobe⟩ := Disk.findSources_error he
    have hrun := ofPaths_refused parse strippers he
    exact ⟨congrArg Prod.fst hrun, ⟨p, hp, hprobe⟩, Disk.probe_error hprobe⟩
  have hrun : result = ((ofFiles r parse strippers files).run s).1 :=
    congrArg Prod.fst (ofPaths_found parse strippers hfiles)
  have hcollects : Collects (r.Yields look s) files result :=
    hrun ▸ ofFiles_collects r parse strippers files s
  refine ⟨(Disk.findSources_eq_ok.mp hfiles).2, hcollects, fun workers now hreaches => ?_,
    fun places hconfined => ⟨fun f haway made => yields_eq hconfined haway, fun haway => ?_⟩⟩
  · exact ⟨fun collected => hreaches.collects, fun hworkers hwaits =>
      Pool.progress hworkers hwaits⟩
  have hresult : result = files.mapM fun f => (look (r.disk s) f).1 :=
    hrun.trans (ofFiles_eq_mapM hconfined haway)
  refine ⟨fun outcomes => ?_, ?_, fun workers now collected hreaches hcollected => ?_⟩
  · rw [hresult]
    exact ⟨map_of_mapM, mapM_of_map⟩
  · rw [hresult, exists_mapM_error_iff]
    simp only [look, exists_ofFile_error_iff htiled]
  · rw [hresult]
    exact (hreaches.collects hcollected).eq_mapM fun f hf {_} =>
      yields_eq hconfined (haway f hf)

def firstFile : Path := ⟨1, ["a.jsx".toList]⟩

def secondFile : Path := ⟨1, ["b.jsx".toList]⟩

/-- Two files, the first of which is no program. -/
def brokenFirst : Disk := .flat [("a.jsx", "("), ("b.jsx", "import 'p'")]

/-- A file that is no program fails, and the file after it is stripped all the same. -/
theorem ofPaths_isolates_unparsed :
    ∃ first second,
      ((ofPaths .aside parseSource [Stripper.tracking "p"] [firstFile, secondFile]).run
        (brokenFirst, [])).1 = .ok [first, second] ∧
      first.status = .failed ∧ second.status = .stripped ∧ second.code = "" := by
  obtain ⟨first, hfirst, hfailed⟩ := exists_ok
    (x := (ofFile parseSource [Stripper.tracking "p"] brokenFirst firstFile).1)
    (p := fun o => decide (o.status = .failed)) (by decide +kernel)
  obtain ⟨second, hsecond, hstripped⟩ := exists_ok
    (x := (ofFile parseSource [Stripper.tracking "p"] brokenFirst secondFile).1)
    (p := fun o => decide (o.status = .stripped ∧ o.code = "")) (by decide +kernel)
  obtain ⟨-, -, -, -, hruns⟩ := ofPaths_isolates parseSource_tiled .aside
    [Stripper.tracking "p"] (brokenFirst, []) [firstFile, secondFile]
  obtain ⟨-, -, -, hconfined⟩ := hruns [firstFile, secondFile] rfl
  obtain ⟨houtcomes, -⟩ := (hconfined (fun _ => False) (Log.Recorder.confined_aside _ _)).2
    fun f _ l _ => id
  refine ⟨first, second, (houtcomes _).mpr ?_, of_decide_eq_true hfailed,
    of_decide_eq_true hstripped⟩
  show [(ofFile _ _ _ firstFile).1, (ofFile _ _ _ secondFile).1] = [.ok first, .ok second]
  rw [← hfirst, ← hsecond]
  rfl

/-- Two files, the first of which is `require('\u{80000000}')`. -/
def largeFirst : Disk :=
  .flat [("a.jsx", "require('\\u\x7b80000000\x7d')"), ("b.jsx", "import 'p'")]

/-- An escape that is too large in one file keeps the others from their outcomes. -/
theorem ofPaths_crashes :
    ∃ second, (ofFile parseSource [Stripper.tracking "p"] largeFirst secondFile).1 = .ok second ∧
      second.status = .stripped ∧
      ((ofPaths .aside parseSource [Stripper.tracking "p"] [firstFile, secondFile]).run
        (largeFirst, [])).1 = .error (.fault .escapeTooLarge) := by
  obtain ⟨second, hsecond, hstripped⟩ := exists_ok
    (x := (ofFile parseSource [Stripper.tracking "p"] largeFirst secondFile).1)
    (p := fun o => decide (o.status = .stripped)) (by decide +kernel)
  obtain ⟨crash, hcrash⟩ := exists_error
    (x := (ofFile parseSource [Stripper.tracking "p"] largeFirst firstFile).1) (by decide +kernel)
  have hreported := ofFile_reported parseSource_tiled [Stripper.tracking "p"] largeFirst firstFile
  rw [hcrash] at hreported
  have hoverflow : crash = .fault .escapeTooLarge := by
    cases hreported with
    | lost hid => cases hid
    | overflow => rfl
  have hfound : largeFirst.findSources [firstFile, secondFile] = .ok [firstFile, secondFile] := rfl
  refine ⟨second, hsecond, of_decide_eq_true hstripped, ?_⟩
  rw [ofPaths_found parseSource _ hfound,
    ofFiles_eq_mapM (Log.Recorder.confined_aside (fun _ => False) _) fun f _ l _ => id,
    List.mapM_cons]
  show ((ofFile _ _ largeFirst firstFile).1 >>= _) = _
  rw [hcrash, hoverflow]
  rfl

end Outcome
end PropShear
