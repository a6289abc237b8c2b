import PropShear.Outcome.Basic

/-! Writing stripped files. -/
namespace PropShear.Outcome

/-- The path that the output of a file has: its own, or one below an output directory. There a file
keeps its place relative to a root, if it is below the root, and else only its name. -/
def target (cwd : Location) (path : Path) (directory root : Option Path) : Path :=
  match directory with
  | none => path
  | some directory =>
    let base := (root.getD ⟨1, cwd⟩).resolve cwd
    directory.join ((base.below? (path.resolve cwd)).getD path.bare)

/-- The name of the source map of an output. -/
def mapName (target : Path) : List Char := target.name ++ ".map".toList

/-- The text of an output: with a source map it ends in a line that refers to the map. -/
def outputText (o : Outcome) (target : Path) : String :=
  match o.map with
  | none => o.code
  | some _ =>
    (if o.code.toList.getLast? = some '\n' then o.code else o.code ++ "\n") ++
      "//# sourceMappingURL=" ++ String.ofList (mapName target) ++ "\n"

/-- Writes the source map of an outcome, if there is one, beside its output. -/
def writeMap (o : Outcome) (d : Disk) (target : Path) : Except Disk.Error Disk :=
  match o.map with
  | none => .ok d
  | some m =>
    d.writeText (target.withName (mapName target))
      { m with file := some (String.ofList target.name) }.toText

/-- Takes a step that may fail; a failure leaves the tree as it was. -/
def andThen (d : Disk) (step : Disk → Except Disk.Error Disk)
    (next : Disk → Disk × Except Disk.Error (Option Path)) :
    Disk × Except Disk.Error (Option Path) :=
  match step d with
  | .error e => (d, .error e)
  | .ok done => next done

/-- Writes the output of a stripped file and its source map; files with another status are not
written. What is written before a failure stays. -/
def write (o : Outcome) (d : Disk) (directory root : Option Path) :
    Disk × Except Disk.Error (Option Path) :=
  if o.status ≠ .stripped then (d, .ok none)
  else
    let path := target d.cwd o.path directory root
    andThen d (·.ensureDirectory path.parent) fun d =>
    andThen d (o.writeMap · path) fun d =>
    andThen d (·.writeText path (o.outputText path)) fun d => (d, .ok (some path))

end PropShear.Outcome
