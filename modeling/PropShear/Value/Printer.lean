import PropShear.Value.Basic
import PropShear.Text.Pieces
import PropShear.Text.Quoted

/-! Values as messages show them. -/
namespace PropShear

namespace Decimal

/-- Drops trailing zeros behind the point. -/
def trimZeros (digits : Nat) : Nat → Nat × Nat
  | 0 => (digits, 0)
  | places + 1 => if digits % 10 = 0 then trimZeros (digits / 10) places else (digits, places + 1)

/-- Drops zeros in front of the point; the second number counts them. -/
def trimPowers : Nat → Nat → Nat × Nat
  | 0, digits => (digits, 0)
  | fuel + 1, digits =>
    if digits ≠ 0 ∧ digits % 10 = 0 then
      let (d, n) := trimPowers fuel (digits / 10)
      (d, n + 1)
    else (digits, 0)

/-- A point divides the number, with at least one digit on both sides; numbers below 10⁻⁴ and from
10¹⁶ on have an exponent of at least two digits. -/
def shown (d : Decimal) : String :=
  let sign := if d.digits < 0 then "-" else ""
  let (whole, places) := trimZeros d.digits.natAbs d.places
  let text := toString whole
  let exponent : Int := (text.length : Int) - 1 - places
  if whole = 0 then sign ++ "0.0"
  else if exponent < -4 ∨ 16 ≤ exponent then
    let (significant, _) := trimPowers text.length whole
    let digits := (toString significant).toList
    let fraction := digits.drop 1
    let point := if fraction.isEmpty then "" else "." ++ String.ofList fraction
    let size := toString exponent.natAbs
    let padded := if size.length < 2 then "0" ++ size else size
    sign ++ String.ofList (digits.take 1) ++ point ++ "e" ++ (if exponent < 0 then "-" else "+") ++
      padded
  else if places = 0 then sign ++ text ++ ".0"
  else
    let digits := (List.replicate (places + 1 - text.length) '0') ++ text.toList
    let cut := digits.length - places
    sign ++ String.ofList (digits.take cut) ++ "." ++ String.ofList (digits.drop cut)

end Decimal

namespace Regex

/-- The expression as a call that builds it. -/
def shown (r : Regex) : String :=
  let names := (if r.flags.ignoreCase then ["re.IGNORECASE"] else []) ++
    (if r.flags.multiline then ["re.MULTILINE"] else []) ++
    (if r.flags.dotAll then ["re.DOTALL"] else [])
  let flags := if names.isEmpty then "" else ", " ++ String.intercalate "|" names
  "re.compile(" ++ Text.quoted r.source ++ flags ++ ")"

end Regex

namespace Value

mutual
/-- The value with text in quotes. -/
def quoted : Value → String
  | none => "None"
  | bool b => if b then "True" else "False"
  | int n => toString n
  | decimal d => d.shown
  | text s => Text.quoted s
  | list items => "[" ++ quotedItems items ++ "]"
  | tuple [item] => "(" ++ item.quoted ++ ",)"
  | tuple items => "(" ++ quotedItems items ++ ")"
  | map entries => "\x7b" ++ quotedEntries entries ++ "\x7d"
  | regex r => r.shown
  | foreign f => f.quoted

def quotedItems : List Value → String
  | [] => ""
  | [item] => item.quoted
  | item :: rest => item.quoted ++ ", " ++ quotedItems rest

def quotedEntries : List (Value × Value) → String
  | [] => ""
  | [(key, value)] => key.quoted ++ ": " ++ value.quoted
  | (key, value) :: rest => key.quoted ++ ": " ++ value.quoted ++ ", " ++ quotedEntries rest
end

/-- The value on its own: text stands for itself. -/
def shown : Value → String
  | text s => s
  | foreign f => f.shown
  | v => v.quoted

end Value
end PropShear
