import PropShear.Disk.Basic
import PropShear.Log.Record

/-! Who takes the records of a run.

A run reads files and logs records, and the log may be a file of the same tree. So what a file is
read as can depend on what was logged before. -/
namespace PropShear.Log

/-- States that hold a tree of files and take records. -/
structure Recorder (σ : Type) where
  disk : σ → Disk
  log : σ → Record → σ

def Recorder.logAll {σ : Type} (r : Recorder σ) (s : σ) (records : List Record) : σ :=
  records.foldl r.log s

/-- The records are listed beside the tree, which they do not change. -/
def Recorder.aside : Recorder (Disk × List Record) where
  disk := Prod.fst
  log s record := (s.1, s.2 ++ [record])

end PropShear.Log
