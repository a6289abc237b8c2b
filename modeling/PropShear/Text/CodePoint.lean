/-! Code points, surrogates included.

Text of a program may hold surrogates on their own, which no `Char` is. Such text is a list of code
points below 2 ^ 21; `joinPairs` puts the two halves of a pair together, as a reader of UTF-16
does. -/
namespace PropShear.Text

def isHighSurrogate (n : Nat) : Bool := 0xd800 ≤ n && n < 0xdc00

def isLowSurrogate (n : Nat) : Bool := 0xdc00 ≤ n && n < 0xe000

/-- The code point that a high and a low surrogate stand for. -/
def pairValue (high low : Nat) : Nat := 0x10000 + (high - 0xd800) * 0x400 + (low - 0xdc00)

def joinPairs : List Nat → List Nat
  | high :: low :: rest =>
    if isHighSurrogate high && isLowSurrogate low then pairValue high low :: joinPairs rest
    else high :: joinPairs (low :: rest)
  | rest => rest

def codePoints (s : List Char) : List Nat := s.map Char.toNat

/-- The string with the given code points, if none of them is a surrogate or too large. -/
def ofCodePoints? (points : List Nat) : Option String :=
  (points.mapM fun (n : Nat) => if h : n.isValidChar then some (Char.ofNatAux n h) else none).map
    String.ofList

end PropShear.Text
