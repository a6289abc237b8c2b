import PropShear.Tree.Walk

/-! Where a text fails to parse.

The fault of a tree with errors is the first erroneous or missing node that the walk enters, or the
whole tree if it is only flagged. Lines and columns count from one, columns in bytes. -/
namespace PropShear

structure SyntaxError where
  path : String
  line : Nat
  column : Nat
  detail : String
deriving DecidableEq, Repr

def SyntaxError.message (e : SyntaxError) : String :=
  e.path ++ ":" ++ toString e.line ++ ":" ++ toString e.column ++ ": " ++ e.detail

/-- The number of line feeds before a byte offset, and the bytes since the last one. -/
def Text.position (source : List Char) (offset : Nat) : Nat × Nat :=
  go 0 0 offset source
where
  go (line column offset : Nat) : List Char → Nat × Nat
    | [] => (line, column + offset)
    | c :: rest =>
      if offset < c.utf8Size then (line, column + offset)
      else if c = '\n' then go (line + 1) 0 (offset - 1) rest
      else go line (column + c.utf8Size) (offset - c.utf8Size) rest

def Node.fault (root : Node) : Node :=
  ((root.places.map Place.node).find? Node.isFault).getD root

/-- The error to report for a tree, if it has one. -/
def Node.syntaxError? (root : Node) (source : List Char) (path : String) : Option SyntaxError :=
  if root.hasError then
    let bad := root.fault
    let (line, column) := Text.position source bad.start
    some ⟨path, line + 1, column + 1,
      if bad.missing then "missing " ++ bad.kind.name else "unexpected token"⟩
  else none

end PropShear
