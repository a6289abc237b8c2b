import PropShear.Tree.Kind
import PropShear.Text.Offset

/-! Syntax trees.

A node has a kind, an extent in bytes of the source text, possibly a role in its parent, and
children in source order. Anonymous nodes stand for punctuation and keywords. -/
namespace PropShear

inductive Node where
  | mk (kind : Kind) (start stop : Nat) (role : Option Role) (named missing flagged : Bool)
      (children : List Node)
deriving Repr

namespace Node

def kind : Node → Kind
  | mk kind _ _ _ _ _ _ _ => kind

/-- A named node without a role. -/
def branch (kind : Kind) (start stop : Nat) (children : List Node) : Node :=
  mk kind start stop none true false false children

/-- A punctuation mark. -/
def token (kind : Kind) (start stop : Nat) : Node := mk kind start stop none false false false []

/-- The same node in a role. -/
def inRole (role : Role) : Node → Node
  | mk kind start stop _ named missing flagged children =>
    mk kind start stop (some role) named missing flagged children

/-- The offset of the first byte. -/
def start : Node → Nat
  | mk _ start _ _ _ _ _ _ => start

/-- The offset after the last byte. -/
def stop : Node → Nat
  | mk _ _ stop _ _ _ _ _ => stop

def role : Node → Option Role
  | mk _ _ _ role _ _ _ _ => role

def named : Node → Bool
  | mk _ _ _ _ named _ _ _ => named

/-- The parser put the node in where the text has nothing. -/
def missing : Node → Bool
  | mk _ _ _ _ _ missing _ _ => missing

/-- The parser flagged the node as erroneous. -/
def flagged : Node → Bool
  | mk _ _ _ _ _ _ flagged _ => flagged

def children : Node → List Node
  | mk _ _ _ _ _ _ _ children => children

def namedChildren (n : Node) : List Node := n.children.filter (·.named)

/-- The first child in a role. -/
def childIn (n : Node) (role : Role) : Option Node := n.children.find? (·.role == some role)

/-- Named children other than comments. -/
def parts (n : Node) : List Node := n.namedChildren.filter (·.kind != .comment)

/-- The text of a node, if its extent does not cut a character. -/
def text? (n : Node) (source : List Char) : Option (List Char) :=
  Text.slice? source n.start n.stop

/-- The node itself marks an error. -/
def isFault (n : Node) : Bool := n.kind == .error || n.missing

mutual
/-- Some node of the tree is an error, missing or flagged. -/
def hasError : Node → Bool
  | mk kind _ _ _ _ missing flagged children =>
    flagged || kind == .error || missing || anyHasError children

def anyHasError : List Node → Bool
  | [] => false
  | n :: rest => hasError n || anyHasError rest
end

mutual
/-- The nodes of the tree in pre-order. -/
def preorder : Node → List Node
  | n@(mk _ _ _ _ _ _ _ children) => n :: preorderAll children

def preorderAll : List Node → List Node
  | [] => []
  | n :: rest => preorder n ++ preorderAll rest
end

end Node
end PropShear
