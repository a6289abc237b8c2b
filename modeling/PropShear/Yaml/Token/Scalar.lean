import PropShear.Text.Integer
import PropShear.Yaml.Token.Scan

/-! Scanning the scalars of YAML documents.

Text that goes over several lines is folded: a single break becomes a blank, and of several breaks
all but the first are kept. -/
namespace PropShear.Yaml.Scan

/-! ### Breaks -/

/-- Moves over breaks and characters of a class between them. -/
def takeBreaks (skipped : Char → Bool) (stop : Scan → Bool) : Nat → Scan → List Char × Scan × Bool
  | 0, s => ([], s, false)
  | fuel + 1, s =>
    if stop s then ([], s, true)
    else
      let s := s.skip skipped
      match s.takeBreak with
      | none => ([], s, false)
      | some (c, s) =>
        let (more, s, stopped) := takeBreaks skipped stop fuel s
        (c :: more, s, stopped)

/-- The text between two lines: the first break with those after it. -/
def foldBreaks (first : Char) (more : List Char) : List Char :=
  if first ≠ '\n' then first :: more else if more.isEmpty then [' '] else more

/-! ### Plain text -/

/-- The signs that divide flow collections. -/
def flowSigns : List Char := [',', '[', ']', '\x7b', '\x7d']

/-- The length of the piece of plain text that starts here. -/
def plainLength (flow : Bool) : List Char → Nat
  | [] => 0
  | c :: rest =>
    if isGap (some c) then 0
    else if c == ':' && (isGap rest.head? || (flow && rest.head?.any flowSigns.contains)) then 0
    else if flow && (c == '?' || flowSigns.contains c) then 0
    else plainLength flow rest + 1

/-- The blanks and breaks after a piece of plain text; nothing if the text ends here. -/
def plainGap (s : Scan) : List Char × Scan :=
  let blanks := s.rest.takeWhile (· == ' ')
  let s := s.forward blanks.length
  match s.takeBreak with
  | none => (blanks, s)
  | some (c, s) =>
    let s := { s with keyAllowed := true }
    let (more, s, stopped) := takeBreaks (· == ' ') atAnyMarker (s.rest.length + 1) s
    if stopped then ([], s) else (foldBreaks c more, s.skip (· == ' '))

def plainText (indent : Int) : Nat → Scan → List Char × Scan
  | 0, s => ([], s)
  | fuel + 1, s =>
    let length := if s.rest.head? == some '#' then 0 else plainLength s.inFlow s.rest
    if length = 0 then ([], s)
    else
      let piece := s.rest.take length
      let (gap, s) := plainGap { s.forward length with keyAllowed := false }
      if gap.isEmpty || s.rest.head? == some '#' || (!s.inFlow && s.column < indent) then (piece, s)
      else
        let (more, t) := plainText indent fuel s
        (if more.isEmpty then piece else piece ++ gap ++ more, t)

def takePlain (s : Scan) : List Char × Scan := plainText (s.indent + 1) (s.rest.length + 1) s

/-! ### Quoted text -/

/-- The characters that are written as a backslash and a single character. -/
def escaped? (c : Char) : Option Char :=
  match c with
  | '0' => some (Char.ofNat 0)
  | 'a' => some '\x07'
  | 'b' => some '\x08'
  | 't' => some '\t'
  | '\t' => some '\t'
  | 'n' => some '\n'
  | 'v' => some '\x0b'
  | 'f' => some '\x0c'
  | 'r' => some '\r'
  | 'e' => some '\x1b'
  | ' ' => some ' '
  | '"' => some '"'
  | '\\' => some '\\'
  | '/' => some '/'
  | 'N' => some '\x85'
  | '_' => some '\xa0'
  | 'L' => some '\u2028'
  | 'P' => some '\u2029'
  | _ => none

/-- How many hexadecimal digits follow a backslash and a letter. -/
def escapeWidth? (c : Char) : Option Nat :=
  match c with
  | 'x' => some 2
  | 'u' => some 4
  | 'U' => some 8
  | _ => none

/-- The character that exactly so many hexadecimal digits write. -/
def hexCharacter? (width : Nat) (s : List Char) : Option Char := do
  let digits := s.take width
  guard (digits.length = width)
  let n ← Text.readDigits? 16 0 digits
  guard (digits.all (· != '_') && n.isValidChar)
  return Char.ofNat n

/-- Inside quotes a marker between documents is an error. -/
def quotedBreaks (s : Scan) : Option (List Char × Scan) :=
  let (breaks, s, stopped) :=
    takeBreaks (fun c => c == ' ' || c == '\t') atAnyMarker (s.rest.length + 1) s
  if stopped then none else some (breaks, s)

/-- The blanks and breaks inside quotes; blanks around breaks do not count. -/
def quotedGap (s : Scan) : Option (List Char × Scan) :=
  let blanks := s.rest.takeWhile fun c => c == ' ' || c == '\t'
  let s := s.forward blanks.length
  match s.takeBreak with
  | none => some (blanks, s)
  | some (c, s) => s.quotedBreaks.map fun (breaks, s) => (foldBreaks c breaks, s)

/-- Reads a backslash sequence behind the backslash. -/
def takeEscape (s : Scan) : Option (List Char × Scan) := do
  let c ← s.rest.head?
  match escaped? c, escapeWidth? c with
  | some e, _ => return ([e], s.forward 1)
  | none, some width => return ([← hexCharacter? width (s.rest.drop 1)], s.forward (width + 1))
  | none, none =>
    let (_, s) ← s.takeBreak
    s.quotedBreaks

/-- Reads text up to the closing quote. -/
def quotedText (double : Bool) : Nat → Scan → Option (List Char × Scan)
  | 0, _ => none
  | fuel + 1, s => do
    let quote := if double then '"' else '\''
    match s.rest with
    | [] => none
    | c :: rest =>
      if !double && c == quote && rest.head? == some quote then
        let (more, s) ← quotedText double fuel (s.forward 2)
        return (quote :: more, s)
      else if c == quote then return ([], s.forward 1)
      else if double && c == '\\' then
        let (piece, s) ← (s.forward 1).takeEscape
        let (more, s) ← quotedText double fuel s
        return (piece ++ more, s)
      else if isGap (some c) then
        let (gap, s) ← s.quotedGap
        let (more, s) ← quotedText double fuel s
        return (gap ++ more, s)
      else
        let (more, s) ← quotedText double fuel (s.forward 1)
        return (c :: more, s)

def takeQuoted (s : Scan) (double : Bool) : Option (List Char × Scan) :=
  quotedText double (s.rest.length + 1) (s.forward 1)

/-! ### Text in blocks -/

/-- What becomes of the breaks at the end of a block. -/
inductive Chomping where
  | clip
  | strip
  | keep
deriving DecidableEq

def chomping? : Char → Option Chomping
  | '+' => some .keep
  | '-' => some .strip
  | _ => none

def increment? (c : Char) : Option Nat := if c == '0' then none else Text.digitBelow? 10 c

/-- The header of a block: signs for its end and its indentation, and perhaps a comment. -/
def blockHeader (s : Scan) : Option (Chomping × Option Nat × Scan) := do
  let first := s.rest.head?
  let second := (s.rest.drop 1).head?
  let (chomping, increment, length) :=
    match first.bind chomping?, first.bind increment? with
    | some chomping, _ =>
      match second.bind increment? with
      | some n => (chomping, some n, 2)
      | none => (chomping, none, 1)
    | none, some n =>
      match second.bind chomping? with
      | some chomping => (chomping, some n, 2)
      | none => (.clip, some n, 1)
    | none, none => (.clip, none, 0)
  let s := s.forward length
  guard (s.rest.head?.all fun c => c == ' ' || isBreak c)
  let s := s.skip (· == ' ')
  let s := if s.rest.head? == some '#' then s.skip (!isBreak ·) else s
  match s.takeBreak with
  | some (_, s) => return (chomping, increment, s)
  | none => if s.rest.isEmpty then return (chomping, increment, s) else none

/-- Moves over breaks and blanks; tells the breaks and the widest indentation. -/
def blockIndentation : Nat → Nat → Scan → List Char × Nat × Scan
  | 0, widest, s => ([], widest, s)
  | fuel + 1, widest, s =>
    let s := s.skip (· == ' ')
    let widest := max widest s.column
    match s.takeBreak with
    | none => ([], widest, s)
    | some (c, s) =>
      let (more, widest, s) := blockIndentation fuel widest s
      (c :: more, widest, s)

/-- Moves over blanks up to a column. -/
def indentTo (s : Scan) (column : Nat) : Scan :=
  s.forward (min (column - s.column) (s.rest.takeWhile (· == ' ')).length)

/-- Moves over empty lines of a block. -/
def blockBreaks (column : Nat) : Nat → Scan → List Char × Scan
  | 0, s => ([], s)
  | fuel + 1, s =>
    let s := s.indentTo column
    match s.takeBreak with
    | none => ([], s)
    | some (c, s) =>
      let (more, s) := blockBreaks column fuel s
      (c :: more, s)

/-- The lines of a block at a column, after some breaks. Gives their text, the break of the last
line and the breaks after it. -/
def blockLines (folded : Bool) (column : Nat) :
    Nat → List Char → Scan → List Char × List Char × List Char × Scan
  | 0, breaks, s => ([], [], breaks, s)
  | fuel + 1, breaks, s =>
    let line := s.rest.takeWhile (!isBreak ·)
    let isText (s : Scan) : Bool := s.rest.head?.any fun c => c != ' ' && c != '\t'
    let leading := isText s
    let s := s.forward line.length
    let (ending, s) := match s.takeBreak with
      | some (c, s) => ([c], s)
      | none => ([], s)
    let (later, s) := blockBreaks column (s.rest.length + 1) s
    if s.column == column && !s.rest.isEmpty then
      let folds := folded && ending == ['\n'] && leading && isText s
      let gap := if !folds then ending else if later.isEmpty then [' '] else []
      let (more, last, after, s) := blockLines folded column fuel later s
      (breaks ++ line ++ gap ++ more, last, after, s)
    else (breaks ++ line, ending, later, s)

/-- Reads text in a block behind its sign. -/
def takeBlock (s : Scan) (folded : Bool) : Option (List Char × Scan) := do
  let (chomping, increment, s) ← (s.forward 1).blockHeader
  let least := (max (s.indent + 1) 1).toNat
  let (breaks, column, s) := match increment with
    | none =>
      let (breaks, widest, s) := blockIndentation (s.rest.length + 1) 0 s
      (breaks, max least widest, s)
    | some n =>
      let column := least + n - 1
      let (breaks, s) := blockBreaks column (s.rest.length + 1) s
      (breaks, column, s)
  let (text, last, later, s) :=
    if s.column == column && !s.rest.isEmpty then
      blockLines folded column (s.rest.length + 1) breaks s
    else ([], [], breaks, s)
  let ending := match chomping with
    | .clip => last
    | .strip => []
    | .keep => last ++ later
  return (text ++ ending, s)

end PropShear.Yaml.Scan
