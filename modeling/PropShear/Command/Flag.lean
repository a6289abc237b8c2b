import PropShear.Text.Integer
import PropShear.Text.Pieces
import PropShear.Text.Quoted

/-! Flags of a command line and how words are read as flags.

A flag has names that start with one or two dashes. A long name may be cut short as long as one flag
is meant, and its value may follow an equals sign. A short name may be followed by its value or by
further short names in the same word. -/
namespace PropShear.Command

/-- What a flag does with the word behind it. -/
inductive Taking where
  | nothing
  | text
  | number
  /-- Takes nothing and asks for help. -/
  | help
deriving DecidableEq, Repr

structure Flag where
  names : List String
  taking : Taking
deriving DecidableEq, Repr

namespace Flag

def takesValue (f : Flag) : Bool :=
  match f.taking with
  | .text | .number => true
  | .nothing | .help => false

/-- All names of a flag, as messages show them. -/
def shown (f : Flag) : String := String.intercalate "/" f.names

end Flag

/-! ### Errors -/

inductive UsageError where
  | ambiguous (word : String) (names : List String)
  | ignoredValue (flag : Flag) (value : String)
  | missingValue (flag : Flag)
  | notNumber (flag : Flag) (value : String)
  | unknownCommand (word : String) (known : List String)
  | missingOperands (name : String)
  | unrecognized (words : List String)

def UsageError.message : UsageError → String
  | ambiguous word names =>
    "ambiguous option: " ++ word ++ " could match " ++ String.intercalate ", " names
  | ignoredValue flag value =>
    "argument " ++ flag.shown ++ ": ignored explicit argument " ++ Text.quoted value
  | missingValue flag => "argument " ++ flag.shown ++ ": expected one argument"
  | notNumber flag value =>
    "argument " ++ flag.shown ++ ": invalid int value: " ++ Text.quoted value
  | unknownCommand word known =>
    "argument cmd: invalid choice: " ++ Text.quoted word ++ " (choose from " ++
      String.intercalate ", " (known.map Text.quoted) ++ ")"
  | missingOperands name => "the following arguments are required: " ++ name
  | unrecognized words => "unrecognized arguments: " ++ String.intercalate " " words

/-! ### Words -/

/-- A word read as a flag. -/
structure Use where
  /-- Nothing if no flag has the name. -/
  flag : Option Flag
  name : String
  /-- Whether an equals sign stands before the value. -/
  separated : Bool
  value : Option String

inductive Word where
  | operand (text : String)
  | flag (text : String) (use : Use)
  /-- Two dashes: no word behind them is a flag. -/
  | divider

namespace Word

def text : Word → String
  | operand text => text
  | flag text _ => text
  | divider => "--"

def isFlag : Word → Bool
  | flag _ _ => true
  | _ => false

def isDivider : Word → Bool
  | divider => true
  | _ => false

end Word

/-- The names of flags with their flags. -/
def namedFlags (flags : List Flag) : List (String × Flag) :=
  flags.flatMap fun f => f.names.map fun name => (name, f)

/-- A word cut at its first equals sign, if it has one. -/
def splitValue (word : List Char) : List Char × Option (List Char) :=
  match word.dropWhile (· ≠ '=') with
  | [] => (word, none)
  | _ :: value => (word.takeWhile (· ≠ '='), some value)

/-- The uses that a word may stand for if it is no full name of a flag. -/
def possibleUses (flags : List Flag) (word : List Char) : List Use :=
  match word with
  | '-' :: '-' :: _ =>
    let (front, value) := splitValue word
    (namedFlags flags).filterMap fun (name, f) =>
      if front.isPrefixOf name.toList then
        some ⟨some f, name, value.isSome, value.map String.ofList⟩
      else none
  | _ =>
    (namedFlags flags).filterMap fun (name, f) =>
      if name.toList = word.take 2 then
        some ⟨some f, name, false, some (String.ofList (word.drop 2))⟩
      else if word.isPrefixOf name.toList then some ⟨some f, name, false, none⟩
      else none

/-- Negative numbers, with or without a point, are no flags. -/
def isNegativeNumber (word : List Char) : Bool :=
  let body := if word.getLast? = some '\n' then word.dropLast else word
  match body with
  | '-' :: rest =>
    match rest.dropWhile Text.isDecimal with
    | [] => !rest.isEmpty
    | '.' :: fraction => !fraction.isEmpty && fraction.all Text.isDecimal
    | _ => false
  | _ => false

/-- Reads a word before two dashes. -/
def readWord (flags : List Flag) (word : String) : Except UsageError Word :=
  let chars := word.toList
  let (front, value) := splitValue chars
  let named (name : String) : Option Flag := (namedFlags flags).lookup name
  if chars.head? ≠ some '-' then .ok (.operand word)
  else
    match named word, named (String.ofList front) with
    | some f, _ => .ok (.flag word ⟨some f, word, false, none⟩)
    | none, some f => .ok (.flag word ⟨some f, String.ofList front, true, value.map String.ofList⟩)
    | none, none =>
      if chars.length = 1 then .ok (.operand word)
      else
        match possibleUses flags chars with
        | [use] => .ok (.flag word use)
        | [] =>
          if isNegativeNumber chars || chars.contains ' ' then .ok (.operand word)
          else .ok (.flag word ⟨none, word, false, none⟩)
        | uses => .error (.ambiguous word (uses.map (·.name)))

def readWords (flags : List Flag) : List String → Except UsageError (List Word)
  | [] => return []
  | word :: rest =>
    if word = "--" then return .divider :: rest.map .operand
    else return (← readWord flags word) :: (← readWords flags rest)

end PropShear.Command
