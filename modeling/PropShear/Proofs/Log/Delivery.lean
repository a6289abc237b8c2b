import PropShear.Log.Logger
import PropShear.Log.Recorder
import PropShear.Proofs.Disk.Growth

/-! Log files.

Records only reach the files of handlers (`Logger.sink_of_emit`). What is delivered
to files that are there is added to them and changes nothing else (`deliver_agrees`). For whoever
takes the records of a run, `Recorder.Confined` says that logging changes no files but some, and
`Recorder.Yields` what a look at the tree may give after something was logged. -/
namespace PropShear.Log

theorem Logger.sink_of_emit {l : Logger} {s : Stamp} {r : Record} {delivery : Delivery}
    (h : delivery ∈ l.emit s r) {p : Path} (hp : delivery.sink = .file p) :
    ∃ handler ∈ l.handlers, handler.sink = .file p := by
  rw [emit] at h
  split at h
  · cases h
  · split at h
    · -- without handlers messages only reach the error stream
      split at h
      · rw [List.mem_singleton] at h
        rw [h] at hp
        cases hp
      · cases h
    · obtain ⟨handler, hhandler, rfl⟩ := List.mem_map.mp h
      exact ⟨handler, (List.mem_filter.mp hhandler).1, hp⟩

/-- Every file that something is delivered to is there. -/
def Open (d : Disk) (deliveries : List Delivery) : Prop :=
  ∀ delivery ∈ deliveries, ∀ p, delivery.sink = .file p → ∃ bytes, d.read p = .ok bytes

/-- The locations of the files that something is delivered to. -/
def Reached (d : Disk) (deliveries : List Delivery) (l : Location) : Prop :=
  ∃ delivery ∈ deliveries, ∃ p, delivery.sink = .file p ∧ d.locate p = .ok l

theorem append_agrees {d : Disk} {p : Path} {old : List UInt8} (h : d.read p = .ok old)
    (bytes : List UInt8) : ∃ l, d.locate p = .ok l ∧ d.get? l = some (.file old) ∧
      (d.append p bytes).toOption.getD d = d.set l (.file (old ++ bytes)) ∧
      Disk.Agrees (· = l) d (d.set l (.file (old ++ bytes))) := by
  obtain ⟨l, hl, hfile, happend, hagrees⟩ := Disk.modify_agrees (· ++ bytes) h
  refine ⟨l, hl, hfile, ?_, hagrees⟩
  rw [Disk.append, happend]
  rfl

theorem deliver_agrees {d : Disk} {deliveries : List Delivery} (hopen : Open d deliveries) :
    Disk.Agrees (Reached d deliveries) d (deliver d deliveries) := by
  refine List.foldlRecOn deliveries _ (.refl _ d) fun c hc delivery hmem => ?_
  split
  · next path hsink =>
    obtain ⟨old, hold⟩ := hopen delivery hmem path hsink
    obtain ⟨now, hnow⟩ := hc.read_ok hold
    obtain ⟨l, hl, -, happend, hagrees⟩ :=
      append_agrees hnow (Text.Utf8.encode delivery.text.toList)
    rw [happend]
    refine hc.trans (hagrees.mono ?_)
    intro k hk
    rw [Disk.locate_congr hc.outline, ← hk] at hl
    exact ⟨delivery, hmem, path, hsink, hl⟩
  · exact hc

/-! ### Recorders -/

namespace Recorder

variable {σ : Type} {r : Recorder σ} {s t u : σ}

/-- A state is reached from another by logging. -/
inductive Logged (r : Recorder σ) (s : σ) : σ → Prop
  | refl : Logged r s s
  | step {t : σ} (h : Logged r s t) (record : Record) : Logged r s (r.log t record)

theorem Logged.trans (h : r.Logged s t) (h' : r.Logged t u) : r.Logged s u := by
  induction h' with
  | refl => exact h
  | step _ record ih => exact ih.step record

theorem logged_logAll (r : Recorder σ) (s : σ) (records : List Record) :
    r.Logged s (r.logAll s records) :=
  List.foldlRecOn records r.log .refl fun _ h record _ => h.step record

/-- Whatever is logged, no file changes but those at some places. -/
def Confined (r : Recorder σ) (places : Location → Prop) (s : σ) : Prop :=
  ∀ ⦃t⦄, r.Logged s t → Disk.Agrees places (r.disk s) (r.disk t)

theorem confined_aside (places : Location → Prop) (s : Disk × List Record) :
    aside.Confined places s := by
  intro t h
  induction h with
  | refl => exact .refl places _
  | step _ _ ih => exact ih

/-- A look at the tree gives a result, after something was logged or not. -/
def Yields {α β : Type} (r : Recorder σ) (look : Disk → α → β × List Record) (s : σ) (a : α)
    (b : β) : Prop :=
  ∃ t, r.Logged s t ∧ (look (r.disk t) a).1 = b

end Recorder

end PropShear.Log
