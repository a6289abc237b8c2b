import PropShear.SourceMap.Vlq
import PropShear.Text.Pieces

/-! The position table of a source map.

The table has one line per line of generated text. Each segment of a line ties a generated column
to a source and a line and column in it. Segments are written as differences: the generated column
to the segment before it on the line, the rest to the segment before it in the table. -/
namespace PropShear.SourceMap

structure Segment where
  column : Int
  source : Int
  sourceLine : Int
  sourceColumn : Int
deriving DecidableEq, Repr

/-- The position in the sources that the next difference counts from. -/
structure Anchor where
  source : Int := 0
  line : Int := 0
  column : Int := 0
deriving DecidableEq, Repr

def Segment.anchor (s : Segment) : Anchor := ⟨s.source, s.sourceLine, s.sourceColumn⟩

namespace Mappings

def encodeSegment (column : Int) (a : Anchor) (s : Segment) : List Char :=
  Vlq.encode (s.column - column) ++ Vlq.encode (s.source - a.source) ++
    Vlq.encode (s.sourceLine - a.line) ++ Vlq.encode (s.sourceColumn - a.column)

def encodeSegments (column : Int) (a : Anchor) : List Segment → List (List Char)
  | [] => []
  | s :: rest => encodeSegment column a s :: encodeSegments s.column s.anchor rest

/-- Where the differences count from after a line. -/
def anchorAfter (a : Anchor) (segments : List Segment) : Anchor :=
  (segments.getLast?.map Segment.anchor).getD a

def encodeLines (a : Anchor) : List (List Segment) → List (List Char)
  | [] => []
  | line :: rest =>
    Text.joined [','] (encodeSegments 0 a line) :: encodeLines (anchorAfter a line) rest

def encode (lines : List (List Segment)) : List Char :=
  Text.joined [';'] (encodeLines {} lines)

/-- Why a table cannot be read. -/
inductive Error where
  /-- A piece is no run of integers. -/
  | badPiece (e : Vlq.Error)
  /-- A piece holds no integer to move the column by. -/
  | noColumn
deriving DecidableEq, Repr

def Error.message : Error → String
  | badPiece e => e.message
  | noColumn => "list index out of range"

def decodePiece (piece : List Char) : Except Error (List Int) :=
  (Vlq.decode piece).mapError .badPiece

/-- Reads the pieces of a line. Fewer than four numbers move the generated column only; numbers
after the fourth have no meaning here. -/
def decodePieces (column : Int) (a : Anchor) :
    List (List Char) → Except Error (List Segment × Anchor)
  | [] => .ok ([], a)
  | [] :: rest => decodePieces column a rest
  | piece :: rest => do
    match ← decodePiece piece with
    | c :: s :: l :: k :: _ =>
      let segment : Segment := ⟨column + c, a.source + s, a.line + l, a.column + k⟩
      let (segments, last) ← decodePieces segment.column segment.anchor rest
      return (segment :: segments, last)
    | c :: _ => decodePieces (column + c) a rest
    | [] => .error .noColumn

def decodeLines (a : Anchor) : List (List Char) → Except Error (List (List Segment))
  | [] => .ok []
  | line :: rest => do
    let (segments, last) ← decodePieces 0 a (Text.pieces ',' line)
    return segments :: (← decodeLines last rest)

def decode (s : List Char) : Except Error (List (List Segment)) :=
  decodeLines {} (Text.pieces ';' s)

end Mappings
end PropShear.SourceMap
