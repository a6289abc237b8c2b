/-! Bytes as base-64 text, three bytes to four digits, padded with `=`. -/
namespace PropShear.Text.Base64

def alphabet : List Char :=
  "ABCDEFGHIJKLMNOPQRSTUVWXYZabcdefghijklmnopqrstuvwxyz0123456789+/".toList

def digit (n : Nat) : Char := alphabet.getD (n % 64) 'A'

def encode : List UInt8 → List Char
  | [] => []
  | [a] =>
    let n := a.toNat * 0x10
    [digit (n / 0x40), digit n, '=', '=']
  | [a, b] =>
    let n := (a.toNat * 0x100 + b.toNat) * 4
    [digit (n / 0x1000), digit (n / 0x40), digit n, '=']
  | a :: b :: c :: rest =>
    let n := (a.toNat * 0x100 + b.toNat) * 0x100 + c.toNat
    digit (n / 0x40000) :: digit (n / 0x1000) :: digit (n / 0x40) :: digit n :: encode rest

end PropShear.Text.Base64
