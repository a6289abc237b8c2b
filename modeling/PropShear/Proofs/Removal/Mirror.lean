import Mathlib.Data.List.Forall2
import PropShear.Proofs.Removal.Total

/-! Nodes that read the same.

A relation between the nodes of two trees *mirrors* if related nodes have the same kind and role,
leaves spell the same, and the children of a node are related one by one unless the node may lose
some of them. The shapes only look into nodes that lose no children, so each of them reads the same
in related nodes (`importOf?_eq`, `requireOf?_eq`, `assigns_eq`). -/
namespace PropShear

/-- Nodes of the kind may lose single children: containers of statements and declarations. -/
def Kind.sheds (k : Kind) : Bool := k.isContainer || k.isDeclaration

/-- Words and the parts of string literals have no children. -/
structure Node.Plain (n : Node) : Prop where
  word : n.kind = .identifier ∨ n.kind = .propertyIdentifier → n.children = []
  part : n.kind = .string → ∀ c ∈ n.namedChildren, c.children = []

instance (n : Node) : Decidable n.Plain :=
  decidable_of_iff
    ((n.kind = .identifier ∨ n.kind = .propertyIdentifier → n.children.isEmpty = true) ∧
      (n.kind = .string → ∀ c ∈ n.namedChildren, c.children.isEmpty = true))
    ⟨fun ⟨hword, hpart⟩ => ⟨fun h => List.isEmpty_iff.mp (hword h),
      fun h c hc => List.isEmpty_iff.mp (hpart h c hc)⟩,
    fun h => ⟨fun hk => List.isEmpty_iff.mpr (h.word hk),
      fun hk c hc => List.isEmpty_iff.mpr (h.part hk c hc)⟩⟩

structure Mirrors (source left : List Char) (related : Node → Node → Prop) : Prop where
  kind : ∀ {n m}, related n m → m.kind = n.kind
  role : ∀ {n m}, related n m → m.role = n.role
  named : ∀ {n m}, related n m → m.named = n.named
  plain : ∀ {n m}, related n m → n.Plain
  text : ∀ {n m}, related n m → n.children = [] → m.text? left = n.text? source
  children : ∀ {n m}, related n m → n.kind.sheds = false →
    List.Forall₂ related n.children m.children

/-! ### Related lists -/

section
variable {α β : Type} {related : α → β → Prop} {as : List α} {bs : List β}

theorem rel_cases {a : Option α} {b : Option β} (h : Option.Rel related a b) :
    (a = none ∧ b = none) ∨ ∃ x y, a = some x ∧ b = some y ∧ related x y := by
  cases h with
  | none => exact .inl ⟨rfl, rfl⟩
  | some hxy => exact .inr ⟨_, _, rfl, rfl, hxy⟩

theorem rel_find? {p : α → Bool} {q : β → Bool} (hpq : ∀ {a b}, related a b → q b = p a)
    (h : List.Forall₂ related as bs) : Option.Rel related (as.find? p) (bs.find? q) := by
  induction h with
  | nil => exact .none
  | @cons a b _ _ hab _ ih =>
    rw [List.find?_cons, List.find?_cons, hpq hab]
    cases p a with
    | true => exact .some hab
    | false => exact ih

theorem rel_mapM {ε γ : Type} {f : α → Except ε γ} {g : β → Except ε γ}
    (h : List.Forall₂ (fun a b => g b = f a) as bs) : bs.mapM g = as.mapM f := by
  induction h with
  | nil => rfl
  | cons hab _ ih => rw [List.mapM_cons, List.mapM_cons, hab, ih]

theorem rel_any {p : α → Bool} {q : β → Bool} (hpq : ∀ {a b}, related a b → q b = p a)
    (h : List.Forall₂ related as bs) : bs.any q = as.any p := by
  induction h with
  | nil => rfl
  | cons hab _ ih => rw [List.any_cons, List.any_cons, hpq hab, ih]

end

namespace Mirrors

variable {source left : List Char} {modules : List Specifier} {related : Node → Node → Prop}
  {n m : Node}

/-! ### Children -/

theorem childIn (mirror : Mirrors source left related) (h : related n m)
    (hsheds : n.kind.sheds = false) (role : Role) :
    Option.Rel related (n.childIn role) (m.childIn role) :=
  rel_find? (fun hc => by rw [mirror.role hc]) (mirror.children h hsheds)

theorem namedChildren (mirror : Mirrors source left related) (h : related n m)
    (hsheds : n.kind.sheds = false) : List.Forall₂ related n.namedChildren m.namedChildren :=
  List.rel_filter (fun _ _ hc => by simp only [mirror.named hc]) (mirror.children h hsheds)

theorem parts (mirror : Mirrors source left related) (h : related n m)
    (hsheds : n.kind.sheds = false) : List.Forall₂ related n.parts m.parts :=
  List.rel_filter (fun _ _ hc => by simp only [mirror.kind hc]) (mirror.namedChildren h hsheds)

/-! ### Texts -/

theorem textOf_eq (mirror : Mirrors source left related) (h : related n m)
    (hleaf : n.children = []) : Literal.textOf left m = Literal.textOf source n := by
  unfold Literal.textOf
  rw [mirror.text h hleaf]

theorem cookPart_eq (mirror : Mirrors source left related) (h : related n m)
    (hleaf : n.children = []) : Literal.cookPart left m = Literal.cookPart source n := by
  unfold Literal.cookPart
  rw [mirror.textOf_eq h hleaf, mirror.kind h]

theorem value?_eq (mirror : Mirrors source left related) (h : related n m) :
    Literal.value? left m = Literal.value? source n := by
  unfold Literal.value?
  rw [mirror.kind h]
  split
  · next hstring =>
    have hparts := mirror.namedChildren h (by rw [hstring]; rfl)
    have hcook : List.Forall₂ (fun c d => Literal.cookPart left d = Literal.cookPart source c)
        n.namedChildren m.namedChildren := by
      rw [List.forall₂_iff_zip] at hparts ⊢
      refine ⟨hparts.1, fun {c d} hcd => mirror.cookPart_eq (hparts.2 hcd) ?_⟩
      exact (mirror.plain h).part hstring c (List.of_mem_zip hcd).1
    rw [rel_mapM hcook]
  · rfl

/-! ### Imports -/

theorem importSource? (mirror : Mirrors source left related) (h : related n m)
    (hkind : n.kind = .importStatement) :
    Option.Rel related (Shape.importSource? n) (Shape.importSource? m) := by
  have hsheds : n.kind.sheds = false := by rw [hkind]; rfl
  unfold Shape.importSource?
  rcases rel_cases (mirror.childIn h hsheds .source) with ⟨hn, hm⟩ | ⟨c, d, hn, hm, hcd⟩
  · rw [hn, hm, Option.none_or, Option.none_or]
    have hclause := rel_find? (p := (·.kind == .importRequireClause))
      (q := (·.kind == .importRequireClause)) (fun hc => by rw [mirror.kind hc])
      (mirror.namedChildren h hsheds)
    rcases rel_cases hclause with ⟨hn, hm⟩ | ⟨c, d, hn, hm, hcd⟩
    · rw [hn, hm]
      exact .none
    · rw [hn, hm]
      have hc : c.kind = .importRequireClause := by simpa using List.find?_some hn
      exact mirror.childIn hcd (by rw [hc]; rfl) .source
  · rw [hn, hm]
    exact .some hcd

theorem importOf?_eq (mirror : Mirrors source left related) (h : related n m) :
    Shape.importOf? left modules m = Shape.importOf? source modules n := by
  unfold Shape.importOf?
  rw [mirror.kind h]
  split
  · next hkind =>
    unfold Shape.importModule?
    rcases rel_cases (mirror.importSource? h hkind) with ⟨hn, hm⟩ | ⟨c, d, hn, hm, hcd⟩
    · rw [hn, hm]
    · rw [hn, hm]
      dsimp only
      rw [mirror.value?_eq hcd]
  · rfl

/-! ### Requires -/

theorem requireModule?_eq (mirror : Mirrors source left related) (h : related n m)
    (hkind : n.kind = .callExpression) :
    Shape.requireModule? left m = Shape.requireModule? source n := by
  have hsheds : n.kind.sheds = false := by rw [hkind]; rfl
  unfold Shape.requireModule?
  rcases rel_cases (mirror.childIn h hsheds .function) with ⟨hn, hm⟩ | ⟨c, d, hn, hm, hcd⟩
  · rw [hn, hm]
  rw [hn, hm]
  dsimp only
  rw [mirror.kind hcd]
  split
  · rfl
  · next hword =>
    have hleaf := (mirror.plain hcd).word (.inl (Decidable.not_not.mp hword))
    rw [mirror.textOf_eq hcd hleaf]
    rcases rel_cases (mirror.childIn h hsheds .arguments) with ⟨hn, hm⟩ | ⟨c, d, hn, hm, hcd⟩
    · rw [hn, hm]
    rw [hn, hm]
    dsimp only
    rw [mirror.kind hcd]
    by_cases harguments : c.kind = .arguments
    · have hparts := mirror.parts hcd (by rw [harguments]; rfl)
      generalize c.parts = cs, d.parts = ds at hparts
      cases hparts with
      | nil => rfl
      | cons hargument hrest =>
        cases hrest with
        | nil =>
          dsimp only
          rw [mirror.value?_eq hargument]
        | cons _ _ => rfl
    · simp only [harguments, ne_eq, not_false_eq_true, if_true]

theorem requireOf?_eq (mirror : Mirrors source left related) (h : related n m) :
    Shape.requireOf? left modules m = Shape.requireOf? source modules n := by
  unfold Shape.requireOf?
  rw [mirror.kind h]
  split
  · next hkind => rw [mirror.requireModule?_eq h hkind]
  · rfl

/-! ### Assignments -/

mutual

theorem unwrap? (mirror : Mirrors source left related) (n m : Node) (h : related n m) :
    Option.Rel related (Shape.unwrap? n) (Shape.unwrap? m) := by
  match n, m with
  | .mk kind start stop role named missing flagged children, .mk kind' _ _ _ _ _ _ children' =>
    have hkind : kind' = kind := mirror.kind h
    subst hkind
    rw [Shape.unwrap?, Shape.unwrap?]
    split
    · next hparen =>
      exact mirror.unwrapOnly? children children' (mirror.children h (by subst hparen; rfl))
    · exact .some h

theorem unwrapOnly? (mirror : Mirrors source left related) (ns ms : List Node)
    (h : List.Forall₂ related ns ms) :
    Option.Rel related (Shape.unwrapOnly? ns) (Shape.unwrapOnly? ms) := by
  match ns, ms, h with
  | [], [], .nil => exact .none
  | n :: ns, m :: ms, .cons hnm h =>
    have hany := rel_any (p := fun n => n.named && n.kind != .comment)
      (q := fun n => n.named && n.kind != .comment)
      (fun hc => by rw [mirror.named hc, mirror.kind hc]) h
    rw [Shape.unwrapOnly?, Shape.unwrapOnly?, mirror.named hnm, mirror.kind hnm, hany]
    split
    · split
      · exact .none
      · exact mirror.unwrap? n m hnm
    · exact mirror.unwrapOnly? ns ms h

end

theorem sheds_of_isAssignment {k : Kind} (h : k.isAssignment = true) : k.sheds = false := by
  cases k <;> first | rfl | cases h

/-- The targets of assignments. -/
theorem target (mirror : Mirrors source left related) (h : related n m)
    (hassignment : n.kind.isAssignment = true) :
    Option.Rel related ((n.childIn .left).bind Shape.unwrap?)
      ((m.childIn .left).bind Shape.unwrap?) := by
  have hleft := mirror.childIn h (sheds_of_isAssignment hassignment) .left
  rcases rel_cases hleft with ⟨hn, hm⟩ | ⟨c, d, hn, hm, hcd⟩
  · rw [hn, hm]
    exact .none
  · rw [hn, hm]
    exact mirror.unwrap? c d hcd

theorem assignedProperty?_eq (mirror : Mirrors source left related) (h : related n m)
    (hkind : n.kind = .expressionStatement) :
    Shape.assignedProperty? left m = Shape.assignedProperty? source n := by
  have hparts := mirror.parts h (by rw [hkind]; rfl)
  unfold Shape.assignedProperty?
  generalize n.parts = ns, m.parts = ms at hparts
  cases hparts with
  | nil => rfl
  | cons hexpression hrest =>
    cases hrest with
    | cons _ _ => rfl
    | nil =>
      dsimp only
      rcases rel_cases (mirror.unwrap? _ _ hexpression) with ⟨hn, hm⟩ | ⟨c, d, hn, hm, hcd⟩
      · rw [hn, hm]
      rw [hn, hm]
      dsimp only
      rw [mirror.kind hcd]
      split
      · next hassignment =>
        rcases rel_cases (mirror.target hcd hassignment) with ⟨hn, hm⟩ | ⟨c, d, hn, hm, hcd⟩
        · rw [hn, hm]
        rw [hn, hm]
        dsimp only
        rw [mirror.kind hcd]
        split
        · rfl
        · next hmember =>
          have hsheds : c.kind.sheds = false := by rw [Decidable.not_not.mp hmember]; rfl
          rcases rel_cases (mirror.childIn hcd hsheds .property) with
            ⟨hn, hm⟩ | ⟨c, d, hn, hm, hcd⟩
          · rw [hn, hm]
          rw [hn, hm]
          dsimp only
          rw [mirror.kind hcd]
          split
          · rfl
          · next hword =>
            have hleaf := (mirror.plain hcd).word (.inr (Decidable.not_not.mp hword))
            rw [mirror.textOf_eq hcd hleaf]
      · rfl

theorem assigns_eq (mirror : Mirrors source left related) (h : related n m) :
    Shape.assigns left m = Shape.assigns source n := by
  unfold Shape.assigns
  rw [mirror.kind h]
  split
  · next hkind => rw [mirror.assignedProperty?_eq h hkind]
  · rfl

end Mirrors
end PropShear
