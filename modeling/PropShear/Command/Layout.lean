import PropShear.Command.Flag

/-! Layouts of command lines and the words that follow them.

The operands are one run of words that are no flags: the first such run, wherever it stands. Words
that have no place are collected and reported last. -/
namespace PropShear.Command

/-- What the operands are. -/
inductive Operands where
  /-- One or more words up to the next flag. -/
  | many
  /-- A command with everything behind it. -/
  | command
deriving DecidableEq, Repr

structure Layout where
  flags : List Flag
  operands : Operands
  /-- The name of the operands, if there have to be some. -/
  required : Option String

/-- Why a command line is not followed further. -/
inductive Stop where
  | help
  | wrong (e : UsageError)

/-- A command line taken apart. -/
structure Arguments where
  /-- The flags in order, with their values. -/
  uses : List (Flag × Option String)
  operands : Option (List String)
  /-- The words that have no place. -/
  extras : List String

namespace Arguments

/-- The values of a flag, in order. -/
def values (a : Arguments) (f : Flag) : List String :=
  a.uses.filterMap fun (g, value) => if g = f then value else none

def has (a : Arguments) (f : Flag) : Bool := a.uses.any (·.1 = f)

/-- The last value of a flag. -/
def last? (a : Arguments) (f : Flag) : Option String := (a.values f).getLast?

end Arguments

namespace Layout

/-! ### Flags -/

/-- The flags in one word: those that are complete, a last one that looks for its value in the next
word, and what is left over. -/
structure Bundle where
  complete : List (Flag × Option String)
  last : Option Flag
  extras : List String

/-- A flag with more characters behind it in its word. -/
def unbundle (l : Layout) (flag : Flag) (short separated : Bool) :
    List Char → Except UsageError Bundle
  | [] => if flag.takesValue then .ok ⟨[(flag, some "")], none, []⟩ else .error (.ignoredValue flag "")
  | c :: rest =>
    let value := String.ofList (c :: rest)
    if flag.takesValue then .ok ⟨[(flag, some value)], none, []⟩
    else if !short || separated || c = '-' then .error (.ignoredValue flag value)
    else
      match (namedFlags l.flags).lookup (String.ofList ['-', c]) with
      | none => .ok ⟨[(flag, none)], none, [String.ofList ('-' :: c :: rest)]⟩
      | some next => do
        match rest with
        | [] => return ⟨[(flag, none)], some next, []⟩
        | '=' :: tail =>
          let more ← unbundle l next true true tail
          return { more with complete := (flag, none) :: more.complete }
        | tail =>
          let more ← unbundle l next true false tail
          return { more with complete := (flag, none) :: more.complete }

/-- The flags that a use stands for. -/
def bundle (l : Layout) (word : String) (use : Use) : Except UsageError Bundle :=
  match use.flag, use.value with
  | none, _ => .ok ⟨[], none, [word]⟩
  | some flag, none => .ok ⟨[], some flag, []⟩
  | some flag, some value =>
    l.unbundle flag ((use.name.toList.drop 1).head? ≠ some '-') use.separated value.toList

/-- Notes a flag with its value. -/
def note (a : Arguments) (flag : Flag) (value : Option String) : Except Stop Arguments :=
  match flag.taking, value with
  | .help, _ => .error .help
  | .number, some text =>
    if (Text.readDecimal? text.toList).isSome then
      .ok { a with uses := a.uses ++ [(flag, value)] }
    else .error (.wrong (.notNumber flag text))
  | _, _ => .ok { a with uses := a.uses ++ [(flag, value)] }

/-- Takes the flags of a word, with a value from the next word if need be. -/
def takeFlag (l : Layout) (a : Arguments) (word : String) (use : Use) (rest : List Word) :
    Except Stop (Arguments × List Word) := do
  let b ← match l.bundle word use with
    | .ok b => pure b
    | .error e => throw (.wrong e)
  let (uses, rest) ← match b.last, rest with
    | none, rest => pure (b.complete, rest)
    | some flag, rest =>
      if !flag.takesValue then pure (b.complete ++ [(flag, none)], rest)
      else
        match rest with
        | .operand text :: rest => pure (b.complete ++ [(flag, some text)], rest)
        | _ => throw (.wrong (.missingValue flag))
  let a := { a with extras := a.extras ++ b.extras }
  return (← uses.foldlM (fun a (flag, value) => note a flag value) a, rest)

/-! ### Operands -/

/-- The operands at the start of some words, with what is left. -/
def takeOperands? (l : Layout) (words : List Word) : Option (List String × List Word) :=
  match words.dropWhile Word.isDivider with
  | .operand _ :: _ =>
    match l.operands with
    | .many =>
      some (((words.takeWhile (!·.isFlag)).map Word.text).erase "--", words.dropWhile (!·.isFlag))
    | .command => some (words.map Word.text, [])
  | _ => none

/-- Takes operands if there are none yet. -/
def nextOperands? (l : Layout) (a : Arguments) (words : List Word) :
    Option (Arguments × List Word) :=
  match a.operands, l.takeOperands? words with
  | none, some (operands, rest) => some ({ a with operands := some operands }, rest)
  | _, _ => none

/-! ### All words -/

/-- Puts words aside that have no place. -/
def putAside (a : Arguments) (words : List Word) : Arguments :=
  { a with extras := a.extras ++ words.map Word.text }

def follow (l : Layout) : Nat → Arguments → List Word → Except Stop Arguments
  | 0, a, words => .ok (putAside a words)
  | fuel + 1, a, words =>
    match words with
    | .flag word use :: rest => do
      let (a, rest) ← l.takeFlag a word use rest
      l.follow fuel a rest
    | words =>
      match l.nextOperands? a words with
      | some (a, rest) => l.follow fuel a rest
      | none =>
        l.follow fuel (putAside a (words.takeWhile (!·.isFlag))) (words.dropWhile (!·.isFlag))

/-- Takes a command line apart. All words are read before any is acted on. -/
def parse (l : Layout) (words : List String) : Except Stop Arguments := do
  let words ← match readWords l.flags words with
    | .ok words => pure words
    | .error e => throw (.wrong e)
  let a ← l.follow (words.length + 1) ⟨[], none, []⟩ words
  match a.operands, l.required with
  | none, some name => throw (.wrong (.missingOperands name))
  | _, _ => return a

end Layout
end PropShear.Command
