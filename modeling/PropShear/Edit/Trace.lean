import PropShear.Edit.Editor
import PropShear.SourceMap.Basic
import PropShear.Text.Offset

/-! The source map of an edited text.

The map is drawn along the stretches that are kept. A segment ties a position of the text to the
position that the kept characters before it lead to in the result. With high resolution every kept
offset gets a segment, otherwise those that start a stretch, start a line of the result or are
marked. Marked offsets that are deleted, or stand at the end, get theirs at the seam that the
deletion leaves: before the next stretch, or when all stretches are drawn. -/
namespace PropShear.Editor

/-! ### Positions in the text -/

/-- The offsets that come right after line feeds; the first character has the given offset. -/
def feedsFrom (offset : Nat) : List Char → List Nat
  | [] => []
  | c :: rest =>
    if c = '\n' then (offset + 1) :: feedsFrom (offset + 1) rest else feedsFrom (offset + 1) rest

/-- The offsets at which lines start. -/
def lineStarts (text : List Char) : Array Nat := (0 :: feedsFrom 0 text).toArray

/-- The line and column of an offset, from the starts of the lines. -/
def position (starts : Array Nat) (offset : Nat) : Nat × Nat :=
  let line := Text.countUpTo starts offset 0 starts.size (Nat.le_refl _) - 1
  (line, offset - starts[line]?.getD 0)

/-! ### Seams -/

/-- Puts an offset in its place among ascending ones, unless it is there. -/
def insertOffset (o : Nat) : List Nat → List Nat
  | [] => [o]
  | p :: rest =>
    if o < p then o :: p :: rest else if o = p then p :: rest else p :: insertOffset o rest

/-- The marked offsets that are not those of kept characters, in ascending order. -/
def seams (e : Editor) : List Nat :=
  (e.marks.filter fun o => o == e.size || Span.covers e.removed o).foldr insertOffset []

/-! ### Drawing -/

/-- A map that is being drawn. -/
structure Drawing where
  /-- The lines that have ended, the last one first. -/
  ended : List (List SourceMap.Segment) := []
  /-- The segments of the line under way, the last one first. -/
  current : List SourceMap.Segment := []
  /-- The column in the result. -/
  column : Nat := 0

namespace Drawing

/-- Adds the segment of an offset, unless it is the last one already. -/
def emit (starts : Array Nat) (d : Drawing) (offset : Nat) : Drawing :=
  let (line, column) := position starts offset
  let segment : SourceMap.Segment := ⟨d.column, 0, line, column⟩
  if d.current.head? = some segment then d else { d with current := segment :: d.current }

/-- Moves past a character of the result. -/
def advance (d : Drawing) (c : Char) : Drawing :=
  if c = '\n' then ⟨d.current :: d.ended, [], 0⟩ else { d with column := d.column + 1 }

/-- The lines drawn so far, in order. -/
def lines (d : Drawing) : List (List SourceMap.Segment) :=
  ((d.current :: d.ended).map List.reverse).reverse

end Drawing

/-- Draws the seams before an offset; the others are left. -/
def drawSeams (starts : Array Nat) (stop : Nat) : List Nat → Drawing → List Nat × Drawing
  | [], d => ([], d)
  | o :: rest, d =>
    if o < stop then drawSeams starts stop rest (d.emit starts o) else (o :: rest, d)

/-- Draws a kept stretch, of which the characters from an offset on are left. -/
def drawChars (starts : Array Nat) (marks : List Nat) (hires : Bool) (start : Nat) :
    Nat → List Char → Drawing → Drawing
  | _, [], d => d
  | i, c :: rest, d =>
    let d := if hires || i == start || marks.contains i || d.column == 0 then d.emit starts i else d
    drawChars starts marks hires start (i + 1) rest (d.advance c)

/-- Draws kept stretches, each after the seams before it, and then the seams that are left. -/
def drawChunks (e : Editor) (starts : Array Nat) (hires : Bool) :
    List Span → List Nat → Drawing → Drawing
  | [], seams, d => seams.foldl (·.emit starts ·) d
  | chunk :: rest, seams, d =>
    let (seams, d) := drawSeams starts chunk.start seams d
    drawChunks e starts hires rest seams
      (drawChars starts e.marks hires chunk.start chunk.start (e.charsIn chunk) d)

/-- The segments of each line of the result. -/
def trace (e : Editor) (hires : Bool) : List (List SourceMap.Segment) :=
  (drawChunks e (lineStarts e.text) hires e.chunks e.seams {}).lines

/-- The map of the edited text. -/
def sourceMap (e : Editor) (source file : Option String) (hires includeContent : Bool) :
    SourceMap where
  mappings := String.ofList (SourceMap.Mappings.encode (e.trace hires))
  sources := [source]
  sourcesContent := if includeContent then some [some (String.ofList e.text)] else none
  file := file

end PropShear.Editor
