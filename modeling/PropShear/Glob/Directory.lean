import PropShear.Glob.Basic

/-! Globs over paths, in which `**/` may stand for no directory at all. -/
namespace PropShear.Glob

/-- Replaces every `/**/` by a slash, from left to right; `skip` characters are still part of the
last one. -/
def dropDirectories (skip : Nat) : List Char → List Char
  | [] => []
  | c :: rest =>
    match skip with
    | skip + 1 => dropDirectories skip rest
    | 0 =>
      if ['/', '*', '*', '/'].isPrefixOf (c :: rest) then '/' :: dropDirectories 3 rest
      else c :: dropDirectories 0 rest

/-- The pattern matches the path as it is, without a leading `**/`, or with every `/**/` taken for
a single slash. -/
def isPathMatch (pattern path : List Char) : Bool :=
  isMatch pattern path ||
    (['*', '*', '/'].isPrefixOf pattern && isMatch (pattern.drop 3) path) ||
    isMatch (dropDirectories 0 pattern) path

end PropShear.Glob
