import PropShear.Text.Printable

/-! Text in quotes, as messages show it.

Single quotes are used unless the text holds a single quote and no double quote. The quote in use,
the backslash and every character that is not printable are escaped. -/
namespace PropShear.Text

/-- The lowest `width` hexadecimal digits of a number, padded with zeros. -/
def hexDigits (width n : Nat) : List Char :=
  (List.range width).reverse.map fun i => Nat.digitChar (n / Nat.pow 16 i % 16)

/-- A code point by its number. -/
def escape (n : Nat) : List Char :=
  if n < 0x100 then '\\' :: 'x' :: hexDigits 2 n
  else if n < 0x10000 then '\\' :: 'u' :: hexDigits 4 n
  else '\\' :: 'U' :: hexDigits 8 n

def quoteChar (quote c : Char) : List Char :=
  if c = quote || c = '\\' then ['\\', c]
  else if c = '\t' then ['\\', 't']
  else if c = '\n' then ['\\', 'n']
  else if c = '\r' then ['\\', 'r']
  else if isPrintable c then [c]
  else escape c.toNat

def quote (s : List Char) : List Char :=
  let mark := if s.contains '\'' && !s.contains '"' then '"' else '\''
  mark :: s.flatMap (quoteChar mark) ++ [mark]

/-- Quotes a string. -/
def quoted (s : String) : String := String.ofList (quote s.toList)

end PropShear.Text
