import PropShear.Regex.Basic
import PropShear.Text.Integer

/-! Reading regular expressions.

The reader takes fuel, computed from the length of the text: every step reads a character or goes
one level deeper into groups, and there are no more of either than characters. -/
namespace PropShear.Regex

abbrev Reader (α : Type) := List Char → Option (α × List Char)

def readClassEscape? : Char → Option Item
  | 'd' => some (.digit false)
  | 'D' => some (.digit true)
  | 'w' => some (.word false)
  | 'W' => some (.word true)
  | 's' => some (.blank false)
  | 'S' => some (.blank true)
  | _ => none

/-- The character that an escape stands for; letters and digits without a meaning are refused. -/
def readCharEscape? : Reader Char
  | 'n' :: rest => some ('\n', rest)
  | 't' :: rest => some ('\t', rest)
  | 'r' :: rest => some ('\r', rest)
  | 'f' :: rest => some (Char.ofNat 12, rest)
  | 'v' :: rest => some (Char.ofNat 11, rest)
  | 'a' :: rest => some (Char.ofNat 7, rest)
  | '0' :: rest => some (Char.ofNat 0, rest)
  | 'x' :: a :: b :: rest => do
    let high ← Text.digitBelow? 16 a
    let low ← Text.digitBelow? 16 b
    return (Char.ofNat (high * 16 + low), rest)
  | c :: rest => if c.isAlphanum then none else some (c, rest)
  | [] => none

/-- One end of a range in a class, or an escape for a whole class. -/
def readClassItem? : Reader Item
  | '\\' :: c :: rest =>
    match readClassEscape? c with
    | some item => some (item, rest)
    | none =>
      if c = 'b' then some (.range (Char.ofNat 8) (Char.ofNat 8), rest)
      else (readCharEscape? (c :: rest)).map fun (d, rest) => (.range d d, rest)
  | c :: rest => some (.range c c, rest)
  | [] => none

/-- The members of a class up to its closing bracket; the first one may be a closing bracket. -/
def readClass? : Nat → Bool → Reader (List Item)
  | 0, _, _ => none
  | fuel + 1, first, s =>
    match s with
    | ']' :: rest => if first then readMembers fuel s else some ([], rest)
    | _ => readMembers fuel s
where
  readMembers (fuel : Nat) (s : List Char) : Option (List Item × List Char) := do
    let (item, rest) ← readClassItem? s
    match item, rest with
    | .range low _, '-' :: c :: more =>
      if c = ']' then
        return ([.range low low, .range '-' '-'], more)
      else
        let (high, rest) ← readClassItem? (c :: more)
        match high with
        | .range high _ =>
          if high < low then none
          else
            let (items, rest) ← readClass? fuel false rest
            return (.range low high :: items, rest)
        | _ => none
    | _, _ =>
      let (items, rest) ← readClass? fuel false rest
      return (item :: items, rest)

/-- The bounds of a counted repetition after its opening brace, if it is one. -/
def readCount? (s : List Char) : Option ((Nat × Option Nat) × List Char) :=
  let isNumeral (c : Char) : Bool := '0' ≤ c && c ≤ '9'
  let first := s.takeWhile isNumeral
  let value (digits : List Char) : Nat := (Text.readDigits? 10 0 digits).getD 0
  match s.drop first.length with
  | '\x7d' :: rest => if first.isEmpty then none else some ((value first, some (value first)), rest)
  | ',' :: rest =>
    let second := rest.takeWhile isNumeral
    match rest.drop second.length with
    | '\x7d' :: rest =>
      some ((value first, if second.isEmpty then none else some (value second)), rest)
    | _ => none
  | _ => none

/-- Puts the repetition that follows around an expression. -/
def readRepeat (inner : Expr) (s : List Char) : Expr × List Char :=
  let lazily : List Char → List Char
    | '?' :: rest => rest
    | rest => rest
  match s with
  | '*' :: rest => (.repeated inner 0 none, lazily rest)
  | '+' :: rest => (.repeated inner 1 none, lazily rest)
  | '?' :: rest => (.repeated inner 0 (some 1), lazily rest)
  | '\x7b' :: rest =>
    match readCount? rest with
    | some ((least, most), rest) => (.repeated inner least most, lazily rest)
    | none => (inner, s)
  | _ => (inner, s)

def single (c : Char) : Expr := .oneOf false [.range c c]

/-- Reads alternatives, a sequence, or one item with its repetition. -/
inductive Level where
  | choice
  | sequence
  | item

def read? : Nat → Level → Reader Expr
  | 0, _, _ => none
  | fuel + 1, .choice, s => do
    let (first, rest) ← read? fuel .sequence s
    match rest with
    | '|' :: rest =>
      let (second, rest) ← read? fuel .choice rest
      return (.choice first second, rest)
    | _ => return (first, rest)
  | fuel + 1, .sequence, s =>
    match s with
    | [] | '|' :: _ | ')' :: _ => some (.empty, s)
    | _ => do
      let (first, rest) ← read? fuel .item s
      let (second, rest) ← read? fuel .sequence rest
      return (.sequence first second, rest)
  | fuel + 1, .item, s => do
    let group (wrap : Expr → Expr) (s : List Char) : Option (Expr × List Char) := do
      let (inner, rest) ← read? fuel .choice s
      match rest with
      | ')' :: rest => return (wrap inner, rest)
      | _ => none
    let (inner, rest) ← match s with
      | '(' :: '?' :: ':' :: rest => group id rest
      | '(' :: '?' :: '=' :: rest => group (.ahead false) rest
      | '(' :: '?' :: '!' :: rest => group (.ahead true) rest
      | '(' :: '?' :: _ => none
      | '(' :: rest => group id rest
      | '[' :: '^' :: rest =>
        (readClass? fuel true rest).map fun (items, rest) => (Expr.oneOf true items, rest)
      | '[' :: rest =>
        (readClass? fuel true rest).map fun (items, rest) => (Expr.oneOf false items, rest)
      | '.' :: rest => some (.dot, rest)
      | '^' :: rest => some (.lineStart, rest)
      | '$' :: rest => some (.lineEnd, rest)
      | '\\' :: 'b' :: rest => some (.wordBoundary false, rest)
      | '\\' :: 'B' :: rest => some (.wordBoundary true, rest)
      | '\\' :: 'A' :: rest => some (.textStart, rest)
      | '\\' :: 'Z' :: rest => some (.textEnd, rest)
      | '\\' :: c :: rest =>
        match readClassEscape? c with
        | some item => some (.oneOf false [item], rest)
        | none => (readCharEscape? (c :: rest)).map fun (d, rest) => (single d, rest)
      | '*' :: _ | '+' :: _ | '?' :: _ | [] => none
      | c :: rest => some (single c, rest)
    return readRepeat inner rest

/-- The expression that a text writes, if it is one. -/
def ofText? (source : String) (flags : Flags) : Option Regex :=
  match read? (3 * source.length + 3) .choice source.toList with
  | some (expr, []) => some ⟨source, flags, expr⟩
  | _ => none

end PropShear.Regex
