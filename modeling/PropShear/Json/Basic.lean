import PropShear.Text.Quoted

/-! Documents in JSON form, written with ASCII characters only.

A blank follows every comma and colon. Characters outside ASCII are written as the escapes of their
UTF-16 units, so the text survives any encoding. -/
namespace PropShear

inductive Json where
  | null
  | number (n : Int)
  | text (s : String)
  | array (items : List Json)
  | object (members : List (String × Json))

namespace Json

/-- The UTF-16 units of a character: one, or a surrogate pair. -/
def units (c : Char) : List Nat :=
  if c.toNat < 0x10000 then [c.toNat]
  else
    let n := c.toNat - 0x10000
    [0xd800 + n / 0x400, 0xdc00 + n % 0x400]

def escapeChar (c : Char) : List Char :=
  if c = '"' then ['\\', '"']
  else if c = '\\' then ['\\', '\\']
  else if c = '\n' then ['\\', 'n']
  else if c = '\r' then ['\\', 'r']
  else if c = '\t' then ['\\', 't']
  else if c.toNat = 12 then ['\\', 'f']
  else if c.toNat = 8 then ['\\', 'b']
  else if 32 ≤ c.toNat && c.toNat < 127 then [c]
  else (units c).flatMap fun u => '\\' :: 'u' :: Text.hexDigits 4 u

def renderText (s : List Char) : List Char := '"' :: s.flatMap escapeChar ++ ['"']

mutual
def render : Json → List Char
  | null => "null".toList
  | number n => (toString n).toList
  | text s => renderText s.toList
  | array items => '[' :: renderItems items ++ [']']
  | object members => '\x7b' :: renderMembers members ++ ['\x7d']

def renderItems : List Json → List Char
  | [] => []
  | [item] => item.render
  | item :: more => item.render ++ [',', ' '] ++ renderItems more

def renderMembers : List (String × Json) → List Char
  | [] => []
  | [(key, value)] => renderText key.toList ++ [':', ' '] ++ value.render
  | (key, value) :: more =>
    renderText key.toList ++ [':', ' '] ++ value.render ++ [',', ' '] ++ renderMembers more
end

end Json
end PropShear
