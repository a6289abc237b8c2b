import PropShear.Yaml.Plain
import PropShear.Yaml.Tree

/-! The values that YAML documents write.

This reads what configuration files are made of. Tags, binary data and times of day are not read:
a tag or a directive makes a document unreadable, and a time of day is text. -/
namespace PropShear.Yaml

/-- Whether a key takes in the entries of other mappings. -/
def isMergeKey : Tree → Bool
  | .scalar text plain => plain && text == ['<', '<']
  | _ => false

/-- The entries of each of some mappings. -/
def mappingsOf? (trees : List Tree) : Option (List (List (Tree × Tree))) :=
  trees.mapM fun
    | .mapping entries => some entries
    | _ => none

/-- The entries that a merge key takes in: those of a mapping or of a list of mappings, of which
earlier ones win. -/
def mergedEntries? : Tree → Option (List (Tree × Tree))
  | .mapping entries => some entries
  | .sequence items => (mappingsOf? items).map fun all => all.reverse.flatten
  | _ => none

/-- Entries with merge keys replaced; an entry of the mapping itself wins over one taken in. -/
def flatten? : Nat → List (Tree × Tree) → Option (List (Tree × Tree))
  | 0, entries => some entries
  | fuel + 1, entries => do
    if entries.any (isMergeKey ·.1) then
      let own := entries.filter (!isMergeKey ·.1)
      let taken ← (entries.filter (isMergeKey ·.1)).mapM fun (_, v) => mergedEntries? v
      flatten? fuel (taken.flatten ++ own)
    else return entries

/-- Collections are no keys. -/
def isKeyValue : Value → Bool
  | .list _ => false
  | .map _ => false
  | _ => true

/-- The value of a key; a single equals sign is text here. -/
def keyScalar? (text : List Char) (plain : Bool) : Option Value :=
  if !plain || text == ['='] then some (.text (String.ofList text)) else plainValue? text

/-- The value of a tree. -/
def treeValue? : Nat → Tree → Option Value
  | 0, _ => none
  | _, .scalar text plain =>
    if plain then plainValue? text else some (.text (String.ofList text))
  | fuel + 1, .sequence items => do return .list (← items.mapM (treeValue? fuel))
  | fuel + 1, .mapping entries => do
    let entries ← flatten? fuel entries
    return .ofEntries (← entries.mapM fun (k, v) => do
      let key ← match k with
        | .scalar text plain => keyScalar? text plain
        | _ => treeValue? fuel k
      guard (isKeyValue key)
      return (key, ← treeValue? fuel v))

/-- The value of a text, which holds one document or none. -/
def load? (text : List Char) : Option Value := do
  match ← tree? text with
  | none => return .none
  | some tree => treeValue? (text.length + 1) tree

/-- The value of a text, or why there is none. -/
def load (text : List Char) : Except String Value :=
  match load? text with
  | some v => .ok v
  | none => .error "not a readable document"

end PropShear.Yaml
