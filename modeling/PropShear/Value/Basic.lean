import PropShear.Regex.Basic

/-! Option values.

Options come from callers, configuration files and command lines, so their shape is not known until
they are checked. Booleans, whole numbers and decimal numbers compare by their numeric value. A
document may hold values of further types, which no option has a use for. -/
namespace PropShear

/-- The number `digits / 10 ^ places`. -/
structure Decimal where
  digits : Int
  places : Nat
deriving DecidableEq, Repr

def Decimal.same (a b : Decimal) : Bool :=
  a.digits * Int.pow 10 b.places == b.digits * Int.pow 10 a.places

def Decimal.lt (a b : Decimal) : Bool :=
  a.digits * Int.pow 10 b.places < b.digits * Int.pow 10 a.places

/-- What keys other than texts are compared as: those of one family can be put in order. -/
inductive Family where
  | number
  | other (name : String)
deriving DecidableEq, Repr

/-- A value of another type, such as a date. -/
structure Foreign where
  typeName : String
  /-- The family that it is compared in, if it can be compared, and its place there. -/
  rank : Option (Family × Decimal)
  shown : String
  /-- As part of another value. -/
  quoted : String
  /-- Whether it stands for nothing. -/
  isBlank : Bool
deriving DecidableEq, Repr

inductive Value where
  | none
  | bool (b : Bool)
  | int (n : Int)
  | decimal (d : Decimal)
  | text (s : String)
  | list (items : List Value)
  | tuple (items : List Value)
  /-- Keys are distinct and in the order in which they were first given. -/
  | map (entries : List (Value × Value))
  | regex (r : Regex)
  | foreign (f : Foreign)

namespace Value

/-- The number that a value stands for. -/
def number? : Value → Option Decimal
  | bool b => some ⟨if b then 1 else 0, 0⟩
  | int n => some ⟨n, 0⟩
  | decimal d => some d
  | _ => Option.none

mutual
/-- Equality of values. -/
def same : Value → Value → Bool
  | none, none => true
  | text s, text t => s == t
  | regex r, regex s => Regex.same r s
  | foreign f, foreign g => f == g
  | list xs, list ys => sameAll xs ys
  | tuple xs, tuple ys => sameAll xs ys
  | map xs, map ys => xs.length == ys.length && sameEntries xs ys
  | a, b =>
    match a.number?, b.number? with
    | some x, some y => x.same y
    | _, _ => false

def sameAll : List Value → List Value → Bool
  | [], [] => true
  | x :: xs, y :: ys => same x y && sameAll xs ys
  | _, _ => false

/-- Every entry of the first list is one of the second. -/
def sameEntries : List (Value × Value) → List (Value × Value) → Bool
  | [], _ => true
  | (k, v) :: rest, ys => (ys.any fun (l, w) => same k l && same v w) && sameEntries rest ys
end

/-- Values that stand for nothing: they count as absent. -/
def isBlank : Value → Bool
  | none => true
  | bool b => !b
  | int n => n == 0
  | decimal d => d.digits == 0
  | text s => s.isEmpty
  | list items => items.isEmpty
  | tuple items => items.isEmpty
  | map entries => entries.isEmpty
  | regex _ => false
  | foreign f => f.isBlank

def typeName : Value → String
  | none => "NoneType"
  | bool _ => "bool"
  | int _ => "int"
  | decimal _ => "float"
  | text _ => "str"
  | list _ => "list"
  | tuple _ => "tuple"
  | map _ => "dict"
  | regex _ => "Pattern"
  | foreign f => f.typeName

/-- Sets the value of a key; a new key goes to the end. -/
def setEntry (key value : Value) : List (Value × Value) → List (Value × Value)
  | [] => [(key, value)]
  | (k, v) :: rest => if same k key then (k, value) :: rest else (k, v) :: setEntry key value rest

/-- A map from entries in order; a key given again keeps its place and takes the later value. -/
def ofEntries (entries : List (Value × Value)) : Value :=
  map (entries.foldl (fun m (k, v) => setEntry k v m) [])

/-- The value of a text key. -/
def lookup (entries : List (Value × Value)) (key : String) : Option Value :=
  (entries.find? fun (k, _) => same k (text key)).map (·.2)

/-- The items of a list or tuple. -/
def items? : Value → Option (List Value)
  | list items => some items
  | tuple items => some items
  | _ => Option.none

/-- The first of each group of equal values. -/
def distinct (values : List Value) : List Value :=
  values.foldl (fun seen v => if seen.any (same · v) then seen else seen ++ [v]) []

/-! ### Order -/

/-- What a value other than a text is compared as. -/
def rank? : Value → Option (Family × Decimal)
  | foreign f => f.rank
  | v => v.number?.map fun x => (.number, x)

/-- Compares places, which have to be in one family. -/
def beforeRank? : Option (Family × Decimal) → Option (Family × Decimal) → Option Bool
  | some (f, x), some (g, y) => if f = g then some (x.lt y) else Option.none
  | _, _ => Option.none

/-- Whether one key sorts before another, if the two can be compared. -/
def before? : Value → Value → Option Bool
  | text s, text t => some (s < t)
  | a, b => beforeRank? a.rank? b.rank?

/-- Puts a key at its place among sorted keys. -/
def insertSorted? (key : Value) : List Value → Option (List Value)
  | [] => some [key]
  | k :: rest => do
    if ← before? key k then return key :: k :: rest
    else return k :: (← insertSorted? key rest)

/-- Sorts keys, if they can be compared with each other. -/
def sorted? (keys : List Value) : Option (List Value) := keys.foldlM (fun ks k => insertSorted? k ks) []

end Value
end PropShear
