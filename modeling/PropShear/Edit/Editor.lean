import PropShear.Edit.Span

/-! An editor that deletes spans of a text.

Spans are noted against the text as it was given, so the order of deletions does not matter. Marks
are offsets that a source map of the result has to mention. Edits are calls that may fail; what a
call has done before it fails stays done. -/
namespace PropShear

structure Editor where
  text : List Char
  /-- The spans deleted so far. -/
  deleted : List Span
  /-- The offsets marked so far. -/
  marks : List Nat
  /-- What is deleted are spans of the text, none of them empty. -/
  inside : ∀ s ∈ deleted, s.start < s.stop ∧ s.stop ≤ text.length

namespace Editor

/-- The editor of a text that nothing was done to. -/
def ofText (text : List Char) : Editor := ⟨text, [], [], nofun⟩

def size (e : Editor) : Nat := e.text.length

/-! ### Edits -/

inductive Error where
  | outOfBounds (offset : Int) (size : Nat)
  | reversed (start stop : Int)
deriving DecidableEq, Repr

def Error.message : Error → String
  | outOfBounds offset size => s!"offset {offset} out of bounds (0..{size})"
  | reversed start stop => s!"invalid range [{start}, {stop})"

/-- Calls that change an editor. -/
abbrev Edit := ExceptT Error (StateM Editor)

/-- Accepts an offset from the start to the end of the text, both included. -/
def accept (offset : Int) : Edit Nat := do
  let size := (← get).size
  if 0 ≤ offset ∧ offset ≤ size then return offset.toNat else throw (.outOfBounds offset size)

def addMark (e : Editor) (o : Nat) : Editor := { e with marks := e.marks ++ [o] }

def mark (offset : Int) : Edit Unit := do
  let o ← accept offset
  modify (·.addMark o)

theorem inside_concat {text : List Char} {spans : List Span} {s : Span}
    (h : ∀ t ∈ spans, t.start < t.stop ∧ t.stop ≤ text.length)
    (hs : s.start < s.stop ∧ s.stop ≤ text.length) :
    ∀ t ∈ spans ++ [s], t.start < t.stop ∧ t.stop ≤ text.length := by
  intro t ht
  rcases List.mem_append.mp ht with ht | ht
  · exact h t ht
  · exact List.mem_singleton.mp ht ▸ hs

/-- Notes a span of the text, unless it is empty. -/
def addSpan (e : Editor) (s : Span) : Editor :=
  if h : s.start < s.stop ∧ s.stop ≤ e.text.length then
    { e with deleted := e.deleted ++ [s], inside := inside_concat e.inside h }
  else e

/-- Deletes a span. An empty one is accepted and changes nothing. -/
def delete (start stop : Int) : Edit Unit := do
  let s ← accept start
  let t ← accept stop
  if t < s then throw (.reversed start stop)
  modify (·.addSpan ⟨s, t⟩)

/-- The editor after edits, unless one of them fails. -/
def after (edits : Edit Unit) (e : Editor) : Except Error Editor :=
  match edits.run e with
  | (.ok _, e) => .ok e
  | (.error err, _) => .error err

/-! ### What is left -/

/-- What was deleted, as sorted spans with gaps between them. -/
def removed (e : Editor) : List Span := Span.merge e.deleted

def hasChanged (e : Editor) : Bool := !e.deleted.isEmpty

/-- The stretches between sorted spans, from an offset up to the size of the text. -/
def gapsFrom (size : Nat) (offset : Nat) : List Span → List Span
  | [] => if offset < size then [⟨offset, size⟩] else []
  | s :: rest =>
    if offset < s.start then ⟨offset, s.start⟩ :: gapsFrom size s.stop rest
    else gapsFrom size s.stop rest

/-- The stretches of the text that are kept. -/
def chunks (e : Editor) : List Span := gapsFrom e.size 0 e.removed

/-- The characters of a stretch of the text. -/
def charsIn (e : Editor) (s : Span) : List Char := (e.text.take s.stop).drop s.start

/-- The text that is left. -/
def result (e : Editor) : List Char := e.chunks.flatMap e.charsIn

end Editor
end PropShear
