import PropShear.Grammar.Program
import PropShear.Path.Basic
import PropShear.Tree.Fault

/-! Source files and their syntax trees. -/
namespace PropShear

/-- The dialect of a file, by the extension of its name. A path may end in a query after a question
mark, which does not count. -/
def Dialect.ofPath (path : List Char) : Dialect :=
  let file := Path.ofText (path.takeWhile (· ≠ '?'))
  ofExtension (String.ofList (file.extension.map Char.toLower))

/-- Parsers are told the path of a source file and its text. -/
abbrev Parser := String → List Char → Except SyntaxError Node

/-- A tree that was made of a source file, if it has no errors. -/
def checkTree (root : Node) : Parser := fun path source =>
  match root.syntaxError? source path with
  | some e => .error e
  | none => .ok root

/-- The parser for the grammar of this library. A file that is no program of its dialect is reported
as a whole, without a position. -/
def parseSource : Parser := fun path source =>
  match Grammar.parse? (Dialect.ofPath path.toList) source with
  | some root => checkTree root path source
  | none => .error ⟨path, 0, 0, "syntax error"⟩

end PropShear
