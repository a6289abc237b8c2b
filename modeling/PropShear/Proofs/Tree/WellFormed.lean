import PropShear.Proofs.Tree.Tiled

/-! Well-formed trees.

A tree of a text is well-formed if it has what a parser guarantees: children lie inside their
parent, in order and without overlap, extents begin and end between characters, punctuation has no
children, declarators are not empty, and the escapes of string literals name code points. Such a
tree is tiled and no escape in it is too large (`WellFormed.tiled`, `WellFormed.not_overflows`). -/
namespace PropShear
namespace Node

/-- What a parser guarantees of one node. -/
structure Sound (source : List Char) (n : Node) : Prop where
  ordered : n.start ≤ n.stop
  inside : ∀ c ∈ n.children, n.start ≤ c.start ∧ c.stop ≤ n.stop
  apart : n.children.Pairwise fun a b => a.stop ≤ b.start
  starts : Text.IsBoundary source n.start
  stops : Text.IsBoundary source n.stop
  leaf : n.named = false → n.children = []
  declares : n.kind = .variableDeclarator → n.start < n.stop
  escapes : n.kind = .string → ∀ c ∈ n.namedChildren, c.kind = .escapeSequence →
    ∀ raw ∈ c.text? source, Literal.EscapeInRange raw

instance (source : List Char) (n : Node) : Decidable (n.Sound source) :=
  decidable_of_iff
    (n.start ≤ n.stop ∧ (∀ c ∈ n.children, n.start ≤ c.start ∧ c.stop ≤ n.stop) ∧
      (n.children.Pairwise fun a b => a.stop ≤ b.start) ∧
      Text.IsBoundary source n.start ∧ Text.IsBoundary source n.stop ∧
      (n.named = false → n.children.isEmpty = true) ∧
      (n.kind = .variableDeclarator → n.start < n.stop) ∧
      (n.kind = .string → ∀ c ∈ n.namedChildren, c.kind = .escapeSequence →
        ∀ raw ∈ c.text? source, Literal.EscapeInRange raw))
    ⟨fun ⟨h₁, h₂, h₃, h₄, h₅, h₆, h₇, h₈⟩ =>
      ⟨h₁, h₂, h₃, h₄, h₅, fun h => List.isEmpty_iff.mp (h₆ h), h₇, h₈⟩,
    fun ⟨h₁, h₂, h₃, h₄, h₅, h₆, h₇, h₈⟩ =>
      ⟨h₁, h₂, h₃, h₄, h₅, fun h => List.isEmpty_iff.mpr (h₆ h), h₇, h₈⟩⟩

/-- The tree is one that a parser may give for the text. -/
def WellFormed (source : List Char) (root : Node) : Prop := ∀ n ∈ root.preorder, n.Sound source

instance (source : List Char) (root : Node) : Decidable (root.WellFormed source) :=
  inferInstanceAs (Decidable (∀ n ∈ root.preorder, n.Sound source))

/-! ### Subtrees -/

theorem wellFormed_iff {source : List Char} {n : Node} :
    n.WellFormed source ↔ n.Sound source ∧ ∀ c ∈ n.children, c.WellFormed source :=
  forall_mem_preorder

theorem WellFormed.sound {source : List Char} {n : Node} (h : n.WellFormed source) :
    n.Sound source := (wellFormed_iff.mp h).1

theorem WellFormed.child {source : List Char} {n c : Node} (h : n.WellFormed source)
    (hc : c ∈ n.children) : c.WellFormed source := (wellFormed_iff.mp h).2 c hc

theorem WellFormed.tiled {source : List Char} {root : Node} (h : root.WellFormed source) :
    root.Tiled source := by
  intro n hn
  obtain ⟨ordered, inside, apart, starts, stops, leaf, declares, -⟩ := h n hn
  exact ⟨ordered, inside, apart, starts, stops, leaf, declares⟩

theorem WellFormed.not_overflows {source : List Char} {root : Node} (h : root.WellFormed source) :
    ¬ root.Overflows source := by
  rintro ⟨n, hn, hstring, c, hc, hescape, raw, hraw, hlarge⟩
  exact ((h n hn).escapes hstring c hc hescape raw hraw).not_tooLarge hlarge

/-! ### A declaration of three names -/

def sampleText : String := "let é, b = require(\"π\"), c;"

/-- The tree of `sampleText`; the second declarator requires a module. -/
def sample : Node :=
  branch .program 0 29 [branch .lexicalDeclaration 0 29 [
    token (.other "let") 0 3,
    branch .variableDeclarator 4 6 [branch .identifier 4 6 []],
    token (.other ",") 6 7,
    branch .variableDeclarator 8 25 [
      branch .identifier 8 9 [],
      token (.other "=") 10 11,
      branch .callExpression 12 25 [
        (branch .identifier 12 19 []).inRole .function,
        (branch .arguments 19 25 [
          token (.other "(") 19 20,
          branch .string 20 24 [
            token (.other "\"") 20 21,
            branch (.other "string_fragment") 21 23 [],
            token (.other "\"") 23 24],
          token (.other ")") 24 25]).inRole .arguments]],
    token (.other ",") 25 26,
    branch .variableDeclarator 27 28 [branch .identifier 27 28 []],
    token .semicolon 28 29]]

theorem sample_wellFormed : sample.WellFormed sampleText.toList := by decide

end Node

namespace Place
variable {source : List Char} {p q : Place}

theorem Within.wellFormed (h : Within p q) (wf : p.node.WellFormed source) :
    q.node.WellFormed source := by
  induction h with
  | refl => exact wf
  | child _ hc ih => exact ih.child (node_mem_children hc)

end Place
end PropShear
