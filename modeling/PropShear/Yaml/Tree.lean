import PropShear.Yaml.Token.Lexer

/-! The trees that YAML documents write.

An anchor gives a name to a tree and an alias stands for the tree of a name. A name is given once,
and not used before the end of its tree. Missing nodes are empty plain text. -/
namespace PropShear.Yaml

inductive Tree where
  | scalar (text : List Char) (plain : Bool)
  | sequence (items : List Tree)
  | mapping (entries : List (Tree × Tree))

def Tree.missing : Tree := .scalar [] true

/-- The tokens that are left, and the named trees; a tree that is not finished is `none`. -/
structure Reading where
  rest : List Token
  named : List (List Char × Option Tree)

abbrev Reader := StateT Reading Option

namespace Reader

def next? : Reader (Option Token) := return (← get).rest.head?

def skip : Reader Unit := modify fun r => { r with rest := r.rest.drop 1 }

/-- Takes a token if it comes next. -/
def accept (t : Token) : Reader Bool := do
  if (← next?) = some t then
    skip
    return true
  else return false

def expect (t : Token) : Reader Unit := do guard (← accept t)

/-- Whether one of some tokens comes next. -/
def sees (ts : List Token) : Reader Bool := return (← next?).any ts.contains

/-- A node unless one of some tokens comes next. -/
def nodeUnless (ts : List Token) (node : Reader Tree) : Reader Tree := do
  if ← sees ts then return .missing else node

mutual
/-- A node. A sequence that is not indented may stand behind a key. -/
def node (block unindented : Bool) : Nat → Reader Tree
  | 0 => failure
  | fuel + 1 => do
    match ← next? with
    | some (.alias name) =>
      skip
      (((← get).named.lookup name).join : Option Tree)
    | some (.anchor name) =>
      skip
      guard ((← get).named.lookup name).isNone
      modify fun r => { r with named := (name, none) :: r.named }
      let tree ← if ← startsContent block unindented then content block unindented fuel
        else pure .missing
      modify fun r => { r with named := (name, some tree) :: r.named }
      return tree
    | _ => content block unindented fuel

/-- Whether a node goes on behind its anchor. -/
def startsContent (block unindented : Bool) : Reader Bool := do
  match ← next? with
  | some (.scalar _ _) | some .openBracket | some .openBrace => return true
  | some .sequenceStart | some .mappingStart => return block
  | some .dash => return unindented
  | _ => return false

def content (block unindented : Bool) : Nat → Reader Tree
  | 0 => failure
  | fuel + 1 => do
    match ← next? with
    | some (.scalar text plain) =>
      skip
      return .scalar text plain
    | some .openBracket =>
      skip
      return .sequence (← flowItems true fuel)
    | some .openBrace =>
      skip
      return .mapping (← flowEntries true fuel)
    | some .sequenceStart =>
      guard block
      skip
      return .sequence (← blockItems fuel)
    | some .mappingStart =>
      guard block
      skip
      return .mapping (← blockEntries fuel)
    | some .dash =>
      guard unindented
      return .sequence (← unindentedItems fuel)
    | _ => failure

def blockItems : Nat → Reader (List Tree)
  | 0 => failure
  | fuel + 1 => do
    if ← accept .dash then
      let item ← nodeUnless [.dash, .blockEnd] (node true false fuel)
      return item :: (← blockItems fuel)
    else
      expect .blockEnd
      return []

def unindentedItems : Nat → Reader (List Tree)
  | 0 => failure
  | fuel + 1 => do
    if ← accept .dash then
      let item ← nodeUnless [.dash, .key, .colon, .blockEnd] (node true false fuel)
      return item :: (← unindentedItems fuel)
    else return []

def blockEntries : Nat → Reader (List (Tree × Tree))
  | 0 => failure
  | fuel + 1 => do
    if ← accept .key then
      let key ← nodeUnless [.key, .colon, .blockEnd] (node true true fuel)
      let value ←
        if ← accept .colon then nodeUnless [.key, .colon, .blockEnd] (node true true fuel)
        else pure .missing
      return (key, value) :: (← blockEntries fuel)
    else
      expect .blockEnd
      return []

def flowItems (first : Bool) : Nat → Reader (List Tree)
  | 0 => failure
  | fuel + 1 => do
    if ← accept .closeBracket then return []
    unless first do expect .comma
    if ← accept .closeBracket then return []
    let item ←
      if ← accept .key then
        let key ← nodeUnless [.colon, .comma, .closeBracket] (node false false fuel)
        let value ←
          if ← accept .colon then nodeUnless [.comma, .closeBracket] (node false false fuel)
          else pure .missing
        pure (Tree.mapping [(key, value)])
      else node false false fuel
    return item :: (← flowItems false fuel)

def flowEntries (first : Bool) : Nat → Reader (List (Tree × Tree))
  | 0 => failure
  | fuel + 1 => do
    if ← accept .closeBrace then return []
    unless first do expect .comma
    if ← accept .closeBrace then return []
    let entry ←
      if ← accept .key then
        let key ← nodeUnless [.colon, .comma, .closeBrace] (node false false fuel)
        let value ←
          if ← accept .colon then nodeUnless [.comma, .closeBrace] (node false false fuel)
          else pure .missing
        pure (key, value)
      else pure (← node false false fuel, Tree.missing)
    return entry :: (← flowEntries false fuel)
end

/-- Takes tokens as long as they are the given one. -/
def acceptAll (t : Token) : Nat → Reader Unit
  | 0 => return
  | fuel + 1 => do
    if ← accept t then acceptAll t fuel

/-- The only document of a text; `none` if the text holds nothing. -/
def document (size : Nat) : Reader (Option Tree) := do
  if (← next?).isNone then return none
  let whole := node true false (4 * size + 4)
  let tree ←
    if ← sees [.directive, .documentStart] then
      acceptAll .directive size
      expect .documentStart
      if (← next?).isNone then pure .missing
      else nodeUnless [.directive, .documentStart, .documentEnd] whole
    else whole
  acceptAll .documentEnd size
  guard (← next?).isNone
  return some tree

end Reader

/-- The tree of a text. -/
def tree? (text : List Char) : Option (Option Tree) := do
  let tokens ← tokens? text
  let (tree, _) ← (Reader.document tokens.length).run ⟨tokens, []⟩
  return tree

end PropShear.Yaml
