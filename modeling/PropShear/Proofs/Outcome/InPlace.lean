import PropShear.Outcome.Output
import PropShear.Proofs.Disk.Overwrite
import PropShear.Proofs.Outcome.Report
import PropShear.Proofs.Text.Utf8

/-! Stripping a file in place.

A file that is stripped is written where it was read, and nothing else of the tree changes. What is
written are the bytes that were read, without the removals that one stripper after another asks for
(`Sheared`), except that every end of line becomes a line feed (`write_inPlace`). So bytes far from
any removal change in a file with carriage returns (`write_drops_carriageReturn`). -/
namespace PropShear

theorem Text.unifyLines_of_not_mem {s : List Char} (h : '\r' ∉ s) : unifyLines s = s := by
  fun_induction unifyLines s with
  | case1 => rfl
  | case2 rest ih => simp at h
  | case3 rest hne ih => simp at h
  | case4 c rest hcrlf hcr ih =>
    rw [List.mem_cons, not_or] at h
    rw [ih h.2]

theorem Text.Utf8.carriageReturn_mem_encode {s : List Char} (h : '\r' ∈ s) : 0x0d ∈ encode s :=
  List.mem_flatMap.mpr ⟨'\r', h, by decide⟩

namespace Outcome

/-- Bytes are left of others after strippers have run: each that finds the file eligible deletes the
ranges of its matches from what the one before left. Such a range is that of the statement or the
class member of a match, or that of its declarator. -/
inductive Sheared (parse : Parser) (id : String) :
    List Stripper → List UInt8 → List UInt8 → Prop
  | done {bytes : List UInt8} : Sheared parse id [] bytes bytes
  | skip {s : Stripper} {rest : List Stripper} {bytes last : List UInt8}
      (hskip : s.filter.isEligible id.toList = false) (hrest : Sheared parse id rest bytes last) :
    Sheared parse id (s :: rest) bytes last
  | cut {s : Stripper} {rest : List Stripper} {bytes last : List UInt8} {text : List Char}
      {root : Node} {removals : List Removal} (heligible : s.filter.isEligible id.toList = true)
      (htext : Text.Utf8.encode text = bytes) (hparse : parse id text = .ok root)
      (hfind : Removal.find text s.settings.modules root = .ok removals)
      (hspans : ∀ r ∈ removals, ∃ p, (Place.root root).Within p ∧
        Removal.Asks text s.settings.modules p.node r.reason r.module? ∧
        Extent.Spans text s.settings.modules root p r.start r.stop)
      (hrest : Sheared parse id rest (Text.survivors (Removal.gone removals) bytes) last) :
    Sheared parse id (s :: rest) bytes last

theorem Runs.sheared {parse : Parser} (htiled : parse.Tiled) {id code last : String}
    {strippers : List Stripper} (h : Runs parse id strippers code (.ok last)) :
    Sheared parse id strippers (Text.Utf8.encode code.toList) (Text.Utf8.encode last.toList) := by
  generalize hresult : Except.ok last = result at h
  induction h with
  | done =>
    cases hresult
    exact .done
  | skip hmakes _ ih =>
    cases hmakes with
    | nothing hskip => exact .skip hskip (ih hresult)
  | cut hmakes _ ih =>
    cases hmakes with
    | cut heligible hparse hfind hleft =>
      refine .cut heligible rfl hparse hfind (fun r hr => ?_) (hleft ▸ ih hresult)
      exact Removal.find_spans (htiled hparse) hfind hr
  | stop => cases hresult

/-- A file that is stripped was accepted by all strippers. -/
theorem Reported.of_stripped {parse : Parser} {strippers : List Stripper} {d : Disk} {path : Path}
    {o : Outcome} (h : Reported parse strippers d path (.ok o)) (hstripped : o.status = .stripped) :
    d.readText path = .ok o.source ∧ o.path = path ∧
      Runs parse (d.resolve path).shown strippers o.source (.ok o.code) := by
  cases h with
  | unreadable => cases hstripped
  | rejected => cases hstripped
  | accepted _ hread hruns hpath => exact ⟨hread, hpath, hruns⟩

/-- The text of a file is that of its bytes, with its ends of lines unified. -/
theorem text_of_readText {d : Disk} {path : Path} {bytes : List UInt8} {source : String}
    (hread : d.read path = .ok bytes) (h : d.readText path = .ok source) :
    ∃ chars, Text.Utf8.encode chars = bytes ∧ source.toList = Text.unifyLines chars := by
  unfold Disk.readText at h
  rw [hread] at h
  dsimp only at h
  split at h
  · cases h
  · next chars hdecode =>
    cases h
    exact ⟨chars, Text.Utf8.encode_decode hdecode, String.toList_ofList⟩

/-- Without a source map a stripped file is written over itself, and nothing else changes. -/
theorem write_over {o : Outcome} {d : Disk} {bytes : List UInt8}
    (hcwd : d.get? d.cwd = some .directory) (hread : d.read o.path = .ok bytes)
    (hstripped : o.status = .stripped) (hmap : o.map = none) :
    ∃ d', o.write d none none = (d', .ok (some o.path)) ∧
      d'.read o.path = .ok (Text.Utf8.encode o.code.toList) ∧ d'.outline = d.outline ∧
      ∀ other, d.locate other ≠ d.locate o.path → d'.read other = d.read other := by
  obtain ⟨d', hwrite, houtline, hback, hothers⟩ :=
    Disk.write_over hread (Text.Utf8.encode o.code.toList)
  have hparent : d.ensureDirectory o.path.parent = .ok d := Disk.ensureDirectory_parent hcwd hread
  refine ⟨d', ?_, hback, houtline, hothers⟩
  simp only [write, hstripped, target, andThen, hparent, writeMap, hmap, outputText,
    Disk.writeText, hwrite, ne_eq, not_true_eq_false, if_false]

/-- Writing a stripped file in place, without a source map, never fails and changes that file only.
The bytes written are those of the file, with line feeds for all ends of lines, without the ranges
of the matches; and with no carriage return in the file they are its own. Trees have no links, and a
file that can be read can be written. -/
theorem write_inPlace {parse : Parser} (htiled : parse.Tiled) (strippers : List Stripper) {d : Disk}
    {path : Path} {bytes : List UInt8} {o : Outcome} (hcwd : d.get? d.cwd = some .directory)
    (hread : d.read path = .ok bytes) (ho : (ofFile parse strippers d path).1 = .ok o)
    (hstripped : o.status = .stripped) (hmap : o.map = none) :
    ∃ chars d' written, Text.Utf8.encode chars = bytes ∧
      o.write d none none = (d', .ok (some path)) ∧ d'.read path = .ok written ∧
      d'.outline = d.outline ∧
      (∀ other, d.locate other ≠ d.locate path → d'.read other = d.read other) ∧
      written = Text.Utf8.encode o.code.toList ∧
      Sheared parse (d.resolve path).shown strippers (Text.Utf8.encode (Text.unifyLines chars))
        written ∧
      (0x0d ∉ bytes → Sheared parse (d.resolve path).shown strippers bytes written) := by
  have hreported := ofFile_reported htiled strippers d path
  rw [ho] at hreported
  obtain ⟨htext, rfl, hruns⟩ := hreported.of_stripped hstripped
  obtain ⟨chars, rfl, hsource⟩ := text_of_readText hread htext
  obtain ⟨d', hwrite, hback, houtline, hothers⟩ := write_over hcwd hread hstripped hmap
  have hsheared := hruns.sheared htiled
  rw [hsource] at hsheared
  refine ⟨chars, d', _, rfl, hwrite, hback, houtline, hothers, rfl, hsheared, fun hcr => ?_⟩
  rwa [Text.unifyLines_of_not_mem (mt Text.Utf8.carriageReturn_mem_encode hcr)] at hsheared

def onlyFile : Path := ⟨1, ["a.jsx".toList]⟩

/-- A file with an import on a line that ends in a line feed. -/
def feedDisk : Disk := .flat [("a.jsx", "import 'p'\nx")]

/-- An import is deleted from its file and the line feed after it stays. -/
theorem write_inPlace_import :
    ∃ o d', (ofFile parseSource [Stripper.tracking "p"] feedDisk onlyFile).1 = .ok o ∧
      o.write feedDisk none none = (d', .ok (some onlyFile)) ∧
      d'.read onlyFile = .ok (Text.Utf8.encode "\nx".toList) ∧
      Sheared parseSource "/a.jsx" [Stripper.tracking "p"] (Text.Utf8.encode "import 'p'\nx".toList)
        (Text.Utf8.encode "\nx".toList) := by
  obtain ⟨o, ho, hstripped⟩ := exists_ok
    (x := (ofFile parseSource [Stripper.tracking "p"] feedDisk onlyFile).1)
    (p := fun o => decide (o.status = .stripped ∧ o.map.isNone ∧ o.code = "\nx"))
    (by decide +kernel)
  obtain ⟨hstatus, hmap, hcode⟩ := of_decide_eq_true hstripped
  obtain ⟨-, d', _, -, hwrite, hback, -, -, rfl, -, hsheared⟩ := write_inPlace
    parseSource_tiled [Stripper.tracking "p"] rfl rfl ho hstatus (Option.isNone_iff_eq_none.mp hmap)
  rw [hcode] at hback hsheared
  exact ⟨o, d', ho, hwrite, hback, hsheared (by decide)⟩

/-- A file with an import on a line that ends in a carriage return and a line feed. -/
def returnDisk : Disk := .flat [("a.jsx", "import 'p'\r\nx")]

/-- The carriage return after an import is no part of its statement, and yet is not written. -/
theorem write_drops_carriageReturn :
    ∃ o d' root removals,
      (ofFile parseSource [Stripper.tracking "p"] returnDisk onlyFile).1 = .ok o ∧
      o.write returnDisk none none = (d', .ok (some onlyFile)) ∧
      d'.read onlyFile = .ok (Text.Utf8.encode "\nx".toList) ∧
      parseSource "/a.jsx" "import 'p'\r\nx".toList = .ok root ∧
      Removal.find "import 'p'\r\nx".toList ["p"] root = .ok removals ∧
      Text.survivors (Removal.gone removals) (Text.Utf8.encode "import 'p'\r\nx".toList) =
        Text.Utf8.encode "\r\nx".toList := by
  obtain ⟨o, ho, hstripped⟩ := exists_ok
    (x := (ofFile parseSource [Stripper.tracking "p"] returnDisk onlyFile).1)
    (p := fun o => decide (o.status = .stripped ∧ o.map.isNone ∧ o.path = onlyFile ∧
      o.code = "\nx")) (by decide +kernel)
  obtain ⟨hstatus, hmap, hpath, hcode⟩ := of_decide_eq_true hstripped
  have hread : returnDisk.read o.path = .ok (Text.Utf8.encode "import 'p'\r\nx".toList) := by
    rw [hpath]
    rfl
  obtain ⟨d', hwrite, hback, -⟩ :=
    write_over rfl hread hstatus (Option.isNone_iff_eq_none.mp hmap)
  rw [hpath] at hwrite hback
  rw [hcode] at hback
  obtain ⟨root, hparse, hroot⟩ := exists_ok
    (x := parseSource "/a.jsx" "import 'p'\r\nx".toList)
    (p := fun root => (Removal.find "import 'p'\r\nx".toList ["p"] root).toOption.any fun found =>
      Text.survivors (Removal.gone found) (Text.Utf8.encode "import 'p'\r\nx".toList) ==
        Text.Utf8.encode "\r\nx".toList) (by decide +kernel)
  obtain ⟨removals, hfind, hleft⟩ := exists_ok hroot
  exact ⟨o, d', root, removals, ho, hwrite, hback, hparse, hfind, beq_iff_eq.mp hleft⟩

end Outcome
end PropShear
