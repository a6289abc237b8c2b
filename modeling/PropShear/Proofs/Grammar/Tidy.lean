import Mathlib.Data.List.Basic
import PropShear.Grammar.Lexeme
import PropShear.Proofs.Tree.Tiled

/-! Parsers that lay their nodes out in order.

A parser is tidy (`Tidy`) if from a place in a text it moves forward to another one, and the nodes
of its result lie in a row between the two. A parser that goes on after others have read some nodes
may put those into its result too (`After`). Each way to combine parsers keeps this, so a parser
for a construct is shown tidy by going through its steps. -/
namespace PropShear.Grammar
open Node (Row)

variable {source : List Char} {α β : Type}

/-! ### Places in a text -/

namespace Input

/-- The input after a number of characters. -/
def skip (i : Input) (n : Nat) : Input :=
  ⟨i.rest.drop n, i.offset + Text.byteLength (i.rest.take n)⟩

/-- The input is the rest of a text. -/
def Of (source : List Char) (i : Input) : Prop := ∃ n, i = skip ⟨source, 0⟩ n

@[simp] theorem skip_zero (i : Input) : i.skip 0 = i := by simp [skip]

theorem skip_skip (i : Input) (m n : Nat) : (i.skip m).skip n = i.skip (m + n) := by
  have hlength : Text.byteLength (i.rest.take (m + n)) =
      Text.byteLength (i.rest.take m) + Text.byteLength ((i.rest.drop m).take n) :=
    Text.byteOffset_add i.rest m n
  simp [skip, hlength, Nat.add_assoc]

theorem le_skip (i : Input) (n : Nat) : i.offset ≤ (i.skip n).offset := Nat.le_add_right ..

theorem lt_skip {i : Input} {n : Nat} (hrest : i.rest ≠ []) (hn : n ≠ 0) :
    i.offset < (i.skip n).offset := by
  obtain ⟨c, rest, hi⟩ := List.exists_cons_of_ne_nil hrest
  obtain ⟨m, rfl⟩ := Nat.exists_eq_succ_of_ne_zero hn
  have hc := c.utf8Size_pos
  simp only [skip, hi, List.take_succ_cons, Text.byteLength_cons]
  omega

theorem Of.skip {i : Input} (h : i.Of source) (n : Nat) : (i.skip n).Of source := by
  obtain ⟨m, rfl⟩ := h
  exact ⟨m + n, skip_skip ..⟩

theorem Of.boundary {i : Input} (h : i.Of source) : Text.IsBoundary source i.offset := by
  obtain ⟨n, rfl⟩ := h
  refine ⟨min n source.length, Nat.min_le_right .., ?_⟩
  simp [Text.byteOffset, Input.skip, ← List.take_eq_take_min]

end Input

/-! ### Nodes in results -/

/-- Results that may hold nodes. -/
class HasNodes (α : Type) where
  /-- The nodes in source order, without their roles. -/
  nodes : α → List Node

/-- Results that hold no nodes. -/
class Plain (α : Type) extends HasNodes α where
  nodes := fun _ => []
  nodes_eq_nil : ∀ a : α, nodes a = [] := by exact fun _ => rfl

export HasNodes (nodes)

instance : HasNodes Node := ⟨fun n => [n.bare]⟩
instance [HasNodes α] : HasNodes (Option α) := ⟨fun o => o.elim [] nodes⟩
instance [HasNodes α] : HasNodes (List α) := ⟨fun as => as.flatMap nodes⟩
instance [HasNodes α] [HasNodes β] : HasNodes (α × β) := ⟨fun p => nodes p.1 ++ nodes p.2⟩

instance : Plain Unit where
instance : Plain Bool where
instance : Plain Nat where
instance : Plain Char where
instance : Plain String where
instance : Plain Kind where

attribute [simp] Plain.nodes_eq_nil

section
variable [HasNodes α]

@[simp] theorem nodes_node (n : Node) : nodes n = [n.bare] := rfl
@[simp] theorem nodes_none : nodes (none : Option α) = [] := rfl
@[simp] theorem nodes_some (a : α) : nodes (some a) = nodes a := rfl
@[simp] theorem nodes_nil : nodes ([] : List α) = [] := rfl
@[simp] theorem nodes_cons (a : α) (as : List α) : nodes (a :: as) = nodes a ++ nodes as := rfl
@[simp] theorem nodes_pair [HasNodes β] (a : α) (b : β) : nodes (a, b) = nodes a ++ nodes b := rfl

@[simp] theorem nodes_append (as bs : List α) : nodes (as ++ bs) = nodes as ++ nodes bs :=
  List.flatMap_append

@[simp] theorem nodes_toList (o : Option α) : nodes o.toList = nodes o := by
  cases o with
  | none => rfl
  | some a => simp

@[simp] theorem nodes_getD (o : Option (List α)) : nodes (o.getD []) = nodes o := by
  cases o with
  | none => rfl
  | some as => rfl

@[simp] theorem nodes_filterMap (os : List (Option α)) :
    nodes (os.filterMap fun o => o) = nodes os := by
  induction os with
  | nil => rfl
  | cons o os ih =>
    cases o with
    | none => simpa using ih
    | some a => simpa using ih

@[simp] theorem nodes_flatten (ass : List (List α)) : nodes ass.flatten = nodes ass := by
  induction ass with
  | nil => rfl
  | cons as ass ih => simp [ih]

@[simp] theorem nodes_map_fst [Plain β] (ps : List (α × β)) :
    nodes (ps.map Prod.fst) = nodes ps := by
  induction ps with
  | nil => rfl
  | cons p ps ih =>
    obtain ⟨a, b⟩ := p
    simp [ih]

end

theorem nodes_eq_map_bare (ns : List Node) : nodes ns = ns.map Node.bare :=
  List.flatMap_pure_eq_map ..

instance [Plain α] : Plain (Option α) where
  nodes := nodes
  nodes_eq_nil o := by cases o <;> simp

instance [Plain α] : Plain (List α) where
  nodes := nodes
  nodes_eq_nil as := by
    induction as with
    | nil => rfl
    | cons a as ih => simp [ih]

/-! ### Tidy parsers -/

/-- After nodes that lie in a row, the parser moves forward and gives a result whose nodes lie in a
row from the same place on. -/
def After (source : List Char) (ns : List Node) [HasNodes α] (p : Parser α) : Prop :=
  ∀ first i a j, i.Of source → Row source first ns i.offset → p i = some (a, j) →
    j.Of source ∧ i.offset ≤ j.offset ∧ Row source first (nodes a) j.offset

/-- The parser moves forward and the nodes of its result lie in a row. -/
abbrev Tidy (source : List Char) [HasNodes α] (p : Parser α) : Prop := After source [] p

theorem bind_eq_some {p : Parser α} {f : α → Parser β} {i k : Input} {b : β}
    (h : (p >>= f) i = some (b, k)) : ∃ a j, p i = some (a, j) ∧ f a j = some (b, k) := by
  obtain ⟨⟨a, j⟩, hp, hf⟩ := Option.bind_eq_some_iff.mp h
  exact ⟨a, j, hp, hf⟩

theorem orElse_eq_some {p q : Parser α} {i j : Input} {a : α}
    (h : (p <|> q) i = some (a, j)) : p i = some (a, j) ∨ q i = some (a, j) := by
  have heq : (p <|> q) i = (p i <|> q i) := rfl
  rw [heq] at h
  cases hp : p i with
  | none => exact .inr (by simpa [hp] using h)
  | some x => exact .inl (by simpa [hp] using h)

namespace After
variable [HasNodes α] [HasNodes β] {p q : Parser α} {f : α → Parser β}
  {ns ms pre mid : List Node} {a : α}

/-- Only the places of the nodes read before matter. -/
theorem of_row (h : After source ms p)
    (hrow : ∀ first last, Row source first ns last → Row source first ms last) :
    After source ns p := fun first i a j hi hns =>
  h first i a j hi (hrow first _ hns)

theorem weaken (h : After source ms p) (hsub : ms.Sublist ns) : After source ns p :=
  h.of_row fun _ _ => Row.sublist hsub

/-- A parser may leave out what was read before it. -/
theorem alone (h : Tidy source p) : After source ns p := h.weaken (List.nil_sublist ns)

/-! ### Results and steps -/

theorem pure_of_row (h : ∀ first last, Row source first ns last → Row source first (nodes a) last) :
    After source ns (pure a : Parser α) := by
  intro first i b j hi hns heq
  cases heq
  exact ⟨hi, Nat.le_refl _, h first _ hns⟩

theorem pure (h : (nodes a).Sublist ns) : After source ns (pure a : Parser α) :=
  pure_of_row fun _ _ => Row.sublist h

theorem failure : After source ns (failure : Parser α) := nofun

/-- A parser after others, and then one that uses its result but not what it took in. -/
theorem absorb (hp : After source mid p) (hf : ∀ a, After source (pre ++ nodes a) (f a)) :
    After source (pre ++ mid) (p >>= f) := by
  intro first i b k hi hns h
  obtain ⟨a, j, hpa, hfb⟩ := bind_eq_some h
  obtain ⟨middle, hpre, hmid⟩ := hns.split
  obtain ⟨hj, hle, hrow⟩ := hp middle i a j hi hmid hpa
  obtain ⟨hk, hle', hrow'⟩ := hf a first j b k hj (hpre.append hrow) hfb
  exact ⟨hk, Nat.le_trans hle hle', hrow'⟩

theorem bind (hp : Tidy source p) (hf : ∀ a, After source (ns ++ nodes a) (f a)) :
    After source ns (p >>= f) := by
  have habsorb : After source (ns ++ []) (p >>= f) := absorb hp hf
  rwa [List.append_nil] at habsorb

/-- A parser that takes in everything read before it. -/
theorem consume (hp : After source ns p) (hf : ∀ a, After source (nodes a) (f a)) :
    After source ns (p >>= f) := by
  have habsorb : After source ([] ++ ns) (p >>= f) := absorb hp hf
  exact habsorb

theorem orElse (hp : After source ns p) (hq : After source ns q) : After source ns (p <|> q) := by
  intro first i a j hi hns h
  rcases orElse_eq_some h with h | h
  · exact hp first i a j hi hns h
  · exact hq first i a j hi hns h

theorem firstOf {ps : List (Parser α)} (h : ps.Forall (After source ns)) :
    After source ns (firstOf ps) := by
  rw [List.forall_iff_forall_mem] at h
  induction ps with
  | nil => exact failure
  | cons p ps ih =>
    exact orElse (h p List.mem_cons_self) (ih fun q hq => h q (List.mem_cons_of_mem p hq))

theorem ite {c : Prop} [Decidable c] (hp : After source ns p) (hq : After source ns q) :
    After source ns (if c then p else q) := by
  split
  · exact hp
  · exact hq

/-- A step that is only taken under a condition. -/
theorem ite_bind {c : Prop} [Decidable c] {k : Parser β} (hp : Tidy source p)
    (hk : After source ns k) : After source ns (if c then p >>= fun _ => k else k) :=
  ite (bind hp fun a => hk.weaken (List.sublist_append_left ns (nodes a))) hk

/-! ### Repetition -/

theorem folded {p : α → Parser α} (hp : ∀ b, After source (nodes b) (p b)) (n : Nat) (a : α) :
    After source (nodes a) (folded p n a) := by
  induction n generalizing a with
  | zero => exact pure (List.Sublist.refl _)
  | succ n ih =>
    intro first i b k hi hns h
    simp only [Grammar.folded] at h
    split at h
    · next c j hc =>
      obtain ⟨hj, hle, hrow⟩ := hp a first i c j hi hns hc
      split at h
      · obtain ⟨hk, hle', hrow'⟩ := ih c first j b k hj hrow h
        exact ⟨hk, Nat.le_trans hle hle', hrow'⟩
      · cases h
        exact ⟨hi, Nat.le_refl _, hns⟩
    · cases h
      exact ⟨hi, Nat.le_refl _, hns⟩

theorem extended {p : α → Parser α} (hsub : (nodes a).Sublist ns)
    (hp : ∀ b, After source (nodes b) (p b)) : After source ns (extended a p) :=
  weaken (fun first i => folded hp i.rest.length a first i) hsub

theorem optional (hp : Tidy source p) : After source ns (optional p) := by
  refine alone ?_
  intro first i a j hi hns h
  unfold Grammar.optional at h
  split at h
  · next b k hb =>
    cases h
    exact hp first i b j hi hns hb
  · cases h
    exact ⟨hi, Nat.le_refl _, hns⟩

theorem repeated (hp : Tidy source p) (n : Nat) : Tidy source (repeated p n) := by
  induction n with
  | zero => exact After.pure (List.nil_sublist _)
  | succ n ih =>
    intro first i as k hi hns h
    simp only [Grammar.repeated] at h
    split at h
    · next a j ha =>
      split at h
      · obtain ⟨⟨more, l⟩, hmore, heq⟩ := Option.map_eq_some_iff.mp h
        cases heq
        obtain ⟨hj, hle, hrow⟩ := hp first i a j hi hns ha
        obtain ⟨hk, hle', hrow'⟩ := ih j.offset j more l hj (Nat.le_refl _) hmore
        exact ⟨hk, Nat.le_trans hle hle', hrow.append hrow'⟩
      · cases h
        exact ⟨hi, Nat.le_refl _, hns⟩
    · cases h
      exact ⟨hi, Nat.le_refl _, hns⟩

theorem many (hp : Tidy source p) : After source ns (many p) :=
  alone fun first i => repeated hp i.rest.length first i

/-! ### Extents -/

/-- A parser that only moves is tidy. -/
theorem of_skip {γ : Type} [Plain γ] {q : Parser γ}
    (h : ∀ i b j, q i = some (b, j) → ∃ n, j = i.skip n) :
    Tidy source q := by
  intro first i b j hi hns heq
  obtain ⟨n, rfl⟩ := h i b j heq
  rw [Plain.nodes_eq_nil]
  exact ⟨hi.skip n, i.le_skip n, hns.later (i.le_skip n)⟩

/-- The offset where a node starts or ends is kept among the nodes, as one without text. -/
theorem bind_offset {f : Nat → Parser β} (hf : ∀ b, After source (ns ++ [.bookmark b]) (f b)) :
    After source ns (offset >>= f) := by
  intro first i b k hi hns h
  have hmark : Row source i.offset [.bookmark i.offset] i.offset :=
    Row.singleton (Node.tiled_bookmark hi.boundary) (Nat.le_refl _) (Nat.le_refl _)
  exact hf i.offset first i b k hi (hns.append hmark) h

end After
end PropShear.Grammar
