import PropShear.Json.Basic
import PropShear.Proofs.Text.Utf16
import PropShear.Text.Integer

/-! Reading JSON text.

The text is cut into tokens (`tokens?`), with any blanks between them. An automaton takes the tokens
one after another (`step`); on its stack are the arrays and objects that are still open. The reader
is the standard one, for the documents that `Json` has: it knows every escape, and it refuses
control characters in texts, leading zeros and commas at the end. -/
namespace PropShear.Json

/-! ### Tokens -/

inductive Token where
  | openArray
  | closeArray
  | openObject
  | closeObject
  | comma
  | colon
  | null
  | number (n : Int)
  | text (s : String)
deriving DecidableEq, Repr

def isBlank (c : Char) : Bool := c == ' ' || c == '\t' || c == '\n' || c == '\r'

/-- What a backslash makes of the character after it. -/
def escaped? : Char → Option Nat
  | '"' => some 0x22
  | '\\' => some 0x5c
  | '/' => some 0x2f
  | 'b' => some 8
  | 'f' => some 12
  | 'n' => some 10
  | 'r' => some 13
  | 't' => some 9
  | _ => none

/-- The unit that four hexadecimal digits name. -/
def unit? (a b c d : Char) : Option Nat := do
  let high := (← Text.digitBelow? 16 a) * 16 + (← Text.digitBelow? 16 b)
  let low := (← Text.digitBelow? 16 c) * 16 + (← Text.digitBelow? 16 d)
  return high * 0x100 + low

/-- The code points and units of a text up to its closing quote, and what follows it. -/
def readPoints? : List Char → Option (List Nat × List Char)
  | [] => none
  | '"' :: rest => some ([], rest)
  | '\\' :: 'u' :: a :: b :: c :: d :: rest => do
    let unit ← unit? a b c d
    (readPoints? rest).map fun found => (unit :: found.1, found.2)
  | '\\' :: c :: rest => do
    let point ← escaped? c
    (readPoints? rest).map fun found => (point :: found.1, found.2)
  | c :: rest =>
    if c.toNat < 32 then none
    else (readPoints? rest).map fun found => (c.toNat :: found.1, found.2)

/-- A number without sign; after a leading zero it ends. -/
def readNat? : List Char → Option (Nat × List Char)
  | '0' :: rest => some (0, rest)
  | c :: rest =>
    if c.isDigit then
      some (Nat.ofDigitChars 10 (c :: rest.takeWhile Char.isDigit) 0, rest.dropWhile Char.isDigit)
    else none
  | [] => none

def readInt? : List Char → Option (Int × List Char)
  | '-' :: rest => (readNat? rest).map fun found => (-(found.1 : Int), found.2)
  | s => (readNat? s).map fun found => ((found.1 : Int), found.2)

/-- The token at the start of a text, and what follows it. -/
def nextToken? : List Char → Option (Token × List Char)
  | '[' :: rest => some (.openArray, rest)
  | ']' :: rest => some (.closeArray, rest)
  | '\x7b' :: rest => some (.openObject, rest)
  | '\x7d' :: rest => some (.closeObject, rest)
  | ',' :: rest => some (.comma, rest)
  | ':' :: rest => some (.colon, rest)
  | 'n' :: 'u' :: 'l' :: 'l' :: rest => some (.null, rest)
  | '"' :: rest => do
    let (points, rest) ← readPoints? rest
    return (.text (← Text.ofCodePoints? (Text.joinPairs points)), rest)
  | s => (readInt? s).map fun found => (.number found.1, found.2)

theorem readPoints?_shortens {s rest : List Char} {points : List Nat}
    (h : readPoints? s = some (points, rest)) : rest.length < s.length := by
  fun_induction readPoints? s generalizing points with
  | case1 => cases h
  | case2 rest' =>
    cases h
    simp
  | case3 a b c d more ih =>
    obtain ⟨unit, -, h⟩ := Option.bind_eq_some_iff.mp h
    obtain ⟨found, hfound, heq⟩ := Option.map_eq_some_iff.mp h
    cases heq
    have := ih hfound
    simp only [List.length_cons]
    omega
  | case4 c more _ ih =>
    obtain ⟨point, -, h⟩ := Option.bind_eq_some_iff.mp h
    obtain ⟨found, hfound, heq⟩ := Option.map_eq_some_iff.mp h
    cases heq
    have := ih hfound
    simp only [List.length_cons]
    omega
  | case5 => cases h
  | case6 c more _ _ _ _ ih =>
    obtain ⟨found, hfound, heq⟩ := Option.map_eq_some_iff.mp h
    cases heq
    have := ih hfound
    simp only [List.length_cons]
    omega

theorem readNat?_shortens {s rest : List Char} {n : Nat} (h : readNat? s = some (n, rest)) :
    rest.length < s.length := by
  unfold readNat? at h
  split at h
  · cases h
    exact Nat.lt_succ_self _
  · next c more _ =>
    split at h
    · cases h
      exact Nat.lt_succ_of_le (List.dropWhile_suffix Char.isDigit).length_le
    · cases h
  · cases h

theorem readInt?_shortens {s rest : List Char} {n : Int} (h : readInt? s = some (n, rest)) :
    rest.length < s.length := by
  unfold readInt? at h
  split at h
  · obtain ⟨found, hfound, heq⟩ := Option.map_eq_some_iff.mp h
    cases heq
    exact Nat.lt_succ_of_lt (readNat?_shortens hfound)
  · obtain ⟨found, hfound, heq⟩ := Option.map_eq_some_iff.mp h
    cases heq
    exact readNat?_shortens hfound

/-- A token takes at least one character. -/
theorem nextToken?_shortens {s rest : List Char} {t : Token} (h : nextToken? s = some (t, rest)) :
    rest.length < s.length := by
  unfold nextToken? at h
  split at h
  case h_7 =>
    cases h
    simp only [List.length_cons]
    omega
  case h_8 more =>
    obtain ⟨found, hfound, h⟩ := Option.bind_eq_some_iff.mp h
    obtain ⟨s, -, heq⟩ := Option.bind_eq_some_iff.mp h
    cases heq
    exact Nat.lt_succ_of_lt (readPoints?_shortens hfound)
  case h_9 =>
    obtain ⟨found, hfound, heq⟩ := Option.map_eq_some_iff.mp h
    cases heq
    exact readInt?_shortens hfound
  all_goals
    cases h
    exact Nat.lt_succ_self _

/-- The tokens of a text, blanks between them left out. -/
def tokens? : List Char → Option (List Token)
  | [] => some []
  | c :: more =>
    if isBlank c then tokens? more
    else
      match hnext : nextToken? (c :: more) with
      | none => none
      | some (t, rest) =>
        have := nextToken?_shortens hnext
        (tokens? rest).map (t :: ·)
termination_by s => s.length
decreasing_by
  · exact Nat.lt_succ_self _
  · exact this

theorem tokens?_blank {c : Char} (h : isBlank c = true) (s : List Char) :
    tokens? (c :: s) = tokens? s := by
  rw [tokens?, if_pos h]

/-- No token starts with a blank. -/
theorem nextToken?_blank {c : Char} (h : isBlank c = true) (s : List Char) :
    nextToken? (c :: s) = none := by
  simp only [isBlank, Bool.or_eq_true, beq_iff_eq] at h
  rcases h with ((rfl | rfl) | rfl) | rfl <;> rfl

/-- One step: the token in front is taken off. -/
theorem tokens?_next {s rest : List Char} {t : Token} (h : nextToken? s = some (t, rest)) :
    tokens? s = (tokens? rest).map (t :: ·) := by
  cases s with
  | nil => cases h
  | cons c more =>
    have hblank : isBlank c ≠ true := by
      intro hc
      rw [nextToken?_blank hc] at h
      cases h
    rw [tokens?, if_neg hblank]
    split
    · next hnone =>
      rw [h] at hnone
      cases hnone
    · next u tail hsome =>
      rw [h] at hsome
      cases hsome
      rfl

/-! ### Values -/

/-- What is open around a value: the items of an array, or the members of an object and the key of
the next one, as far as they have been read. -/
inductive Frame where
  | array (items : List Json)
  | object (members : List (String × Json)) (key : String)

/-- What the automaton is about to read. -/
inductive State where
  /-- A value. -/
  | value (stack : List Frame)
  /-- The first item of an array, or its end. -/
  | firstItem (stack : List Frame)
  /-- The first key of an object, or its end. -/
  | firstKey (stack : List Frame)
  /-- A further key. -/
  | key (members : List (String × Json)) (stack : List Frame)
  /-- The colon after a key. -/
  | colon (members : List (String × Json)) (key : String) (stack : List Frame)
  /-- What may follow a value: a comma or the end of what is open. -/
  | follow (v : Json) (stack : List Frame)

/-- The start of a value. -/
def begin? (stack : List Frame) : Token → Option State
  | .null => some (.follow .null stack)
  | .number n => some (.follow (.number n) stack)
  | .text s => some (.follow (.text s) stack)
  | .openArray => some (.firstItem stack)
  | .openObject => some (.firstKey stack)
  | _ => none

def step : State → Token → Option State
  | .value stack, t => begin? stack t
  | .firstItem stack, .closeArray => some (.follow (.array []) stack)
  | .firstItem stack, t => begin? (.array [] :: stack) t
  | .firstKey stack, .closeObject => some (.follow (.object []) stack)
  | .firstKey stack, .text key => some (.colon [] key stack)
  | .key members stack, .text key => some (.colon members key stack)
  | .colon members key stack, .colon => some (.value (.object members key :: stack))
  | .follow v (.array items :: stack), .comma => some (.value (.array (items ++ [v]) :: stack))
  | .follow v (.array items :: stack), .closeArray => some (.follow (.array (items ++ [v])) stack)
  | .follow v (.object members key :: stack), .comma =>
    some (.key (members ++ [(key, v)]) stack)
  | .follow v (.object members key :: stack), .closeObject =>
    some (.follow (.object (members ++ [(key, v)])) stack)
  | _, _ => none

/-- The document of a text. -/
def read? (s : List Char) : Option Json := do
  match (← tokens? s).foldlM step (.value []) with
  | some (.follow v []) => some v
  | _ => none

end PropShear.Json
