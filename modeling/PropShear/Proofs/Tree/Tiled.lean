import PropShear.Proofs.Removal.Escape
import PropShear.Proofs.Text.Boundary
import PropShear.Proofs.Tree.Places

/-! Trees whose nodes lie where they should.

`Node.Laid` is what a parser guarantees of the extents of a node and its children, and a tree is
tiled if every node of it is laid. Nothing is said of the escapes in it, which may name any number
(`Node.Overflows`). Nodes that a parser has read one after another form a row
(`Node.Row`), and a row becomes the children of a node (`Row.tiled_branch`). -/
namespace PropShear

variable {source : List Char}

namespace Node

/-- What a parser guarantees of the extent of one node. -/
structure Laid (source : List Char) (n : Node) : Prop where
  ordered : n.start ≤ n.stop
  inside : ∀ c ∈ n.children, n.start ≤ c.start ∧ c.stop ≤ n.stop
  apart : n.children.Pairwise fun a b => a.stop ≤ b.start
  starts : Text.IsBoundary source n.start
  stops : Text.IsBoundary source n.stop
  leaf : n.named = false → n.children = []
  declares : n.kind = .variableDeclarator → n.start < n.stop

/-- Every node of the tree is laid. -/
def Tiled (source : List Char) (root : Node) : Prop := ∀ n ∈ root.preorder, n.Laid source

/-- Some string literal of the tree has an escape that names too large a number. -/
def Overflows (source : List Char) (root : Node) : Prop :=
  ∃ n ∈ root.preorder, n.kind = .string ∧ ∃ c ∈ n.namedChildren, c.kind = .escapeSequence ∧
    ∃ raw ∈ c.text? source, Literal.TooLarge raw

/-! ### Subtrees -/

theorem preorder_eq (n : Node) : n.preorder = n :: preorderAll n.children := by
  cases n with
  | mk => rfl

theorem mem_preorderAll {ns : List Node} {m : Node} :
    m ∈ preorderAll ns ↔ ∃ n ∈ ns, m ∈ n.preorder := by
  induction ns with
  | nil => simp [preorderAll]
  | cons n rest ih => simp only [preorderAll, List.mem_append, ih, List.mem_cons, exists_eq_or_imp]

theorem mem_preorder_self (n : Node) : n ∈ n.preorder := by
  rw [preorder_eq]
  exact List.mem_cons_self

theorem mem_preorder_of_child {n c m : Node} (hc : c ∈ n.children) (hm : m ∈ c.preorder) :
    m ∈ n.preorder := by
  rw [preorder_eq]
  exact List.mem_cons_of_mem n (mem_preorderAll.mpr ⟨c, hc, hm⟩)

mutual

theorem mem_preorder_trans (n m k : Node) (hm : m ∈ n.preorder) (hk : k ∈ m.preorder) :
    k ∈ n.preorder := by
  match n with
  | .mk kind start stop role named missing flagged children =>
    rcases List.mem_cons.mp hm with rfl | hm
    · exact hk
    · exact List.mem_cons_of_mem _ (mem_preorderAll_trans children m k hm hk)

theorem mem_preorderAll_trans (ns : List Node) (m k : Node) (hm : m ∈ preorderAll ns)
    (hk : k ∈ m.preorder) : k ∈ preorderAll ns := by
  match ns with
  | [] => cases hm
  | n :: rest =>
    rcases List.mem_append.mp hm with hm | hm
    · exact List.mem_append_left _ (mem_preorder_trans n m k hm hk)
    · exact List.mem_append_right _ (mem_preorderAll_trans rest m k hm hk)

end

theorem Tiled.below {n m : Node} (h : n.Tiled source) (hm : m ∈ n.preorder) : m.Tiled source :=
  fun k hk => h k (mem_preorder_trans n m k hm hk)

theorem Overflows.above {n m : Node} (h : m.Overflows source) (hm : m ∈ n.preorder) :
    n.Overflows source := by
  obtain ⟨k, hk, hlarge⟩ := h
  exact ⟨k, mem_preorder_trans n m k hm hk, hlarge⟩

/-- What holds of all nodes of a tree holds of its root and in the trees below. -/
theorem forall_mem_preorder {P : Node → Prop} {n : Node} :
    (∀ m ∈ n.preorder, P m) ↔ P n ∧ ∀ c ∈ n.children, ∀ m ∈ c.preorder, P m := by
  rw [preorder_eq, List.forall_mem_cons]
  refine and_congr_right fun _ => ?_
  constructor
  · intro h c hc m hm
    exact h m (mem_preorderAll.mpr ⟨c, hc, hm⟩)
  · intro h m hm
    obtain ⟨c, hc, hm⟩ := mem_preorderAll.mp hm
    exact h c hc m hm

theorem tiled_iff {n : Node} :
    n.Tiled source ↔ n.Laid source ∧ ∀ c ∈ n.children, c.Tiled source :=
  forall_mem_preorder

theorem Tiled.laid {n : Node} (h : n.Tiled source) : n.Laid source := (tiled_iff.mp h).1

theorem Tiled.child {n c : Node} (h : n.Tiled source) (hc : c ∈ n.children) : c.Tiled source :=
  (tiled_iff.mp h).2 c hc

/-! ### Roles -/

/-- The node without its role. -/
def bare : Node → Node
  | mk kind start stop _ named missing flagged children =>
    mk kind start stop none named missing flagged children

@[simp] theorem bare_inRole (role : Role) (n : Node) : (n.inRole role).bare = n.bare := by
  cases n
  rfl

@[simp] theorem bare_branch (kind : Kind) (start stop : Nat) (children : List Node) :
    (branch kind start stop children).bare = branch kind start stop children := rfl

@[simp] theorem start_bare (n : Node) : n.bare.start = n.start := by
  cases n
  rfl

@[simp] theorem stop_bare (n : Node) : n.bare.stop = n.stop := by
  cases n
  rfl

/-- A role makes no difference to where nodes lie. -/
theorem tiled_bare {n : Node} : n.bare.Tiled source ↔ n.Tiled source := by
  cases n with
  | mk kind start stop role named missing flagged children =>
    rw [tiled_iff, tiled_iff]
    refine and_congr ?_ Iff.rfl
    constructor
    · rintro ⟨ordered, inside, apart, starts, stops, leaf, declares⟩
      exact ⟨ordered, inside, apart, starts, stops, leaf, declares⟩
    · rintro ⟨ordered, inside, apart, starts, stops, leaf, declares⟩
      exact ⟨ordered, inside, apart, starts, stops, leaf, declares⟩

/-! ### Rows -/

/-- Tiled nodes that lie one after another between two offsets. -/
def Row (source : List Char) (first : Nat) : List Node → Nat → Prop
  | [], last => first ≤ last
  | n :: rest, last => first ≤ n.start ∧ n.Tiled source ∧ Row source n.stop rest last

namespace Row
variable {first first' last last' middle : Nat} {ns ms : List Node} {n : Node}

theorem le (h : Row source first ns last) : first ≤ last := by
  induction ns generalizing first with
  | nil => exact h
  | cons n rest ih =>
    obtain ⟨hfirst, hn, hrest⟩ := h
    have hordered := hn.laid.ordered
    have := ih hrest
    omega

theorem earlier (h : Row source first ns last) (hle : first' ≤ first) :
    Row source first' ns last := by
  cases ns with
  | nil => exact Nat.le_trans hle h
  | cons n rest => exact ⟨Nat.le_trans hle h.1, h.2⟩

theorem later (h : Row source first ns last) (hle : last ≤ last') :
    Row source first ns last' := by
  induction ns generalizing first with
  | nil => exact Nat.le_trans h hle
  | cons n rest ih => exact ⟨h.1, h.2.1, ih h.2.2⟩

theorem append (h : Row source first ns middle) (h' : Row source middle ms last) :
    Row source first (ns ++ ms) last := by
  induction ns generalizing first with
  | nil => exact h'.earlier h
  | cons n rest ih => exact ⟨h.1, h.2.1, ih h.2.2⟩

theorem split (h : Row source first (ns ++ ms) last) :
    ∃ middle, Row source first ns middle ∧ Row source middle ms last := by
  induction ns generalizing first with
  | nil => exact ⟨first, Nat.le_refl _, h⟩
  | cons n rest ih =>
    obtain ⟨middle, hrest, hms⟩ := ih h.2.2
    exact ⟨middle, ⟨h.1, h.2.1, hrest⟩, hms⟩

theorem sublist (hsub : ms.Sublist ns) (h : Row source first ns last) :
    Row source first ms last := by
  induction hsub generalizing first with
  | slnil => exact h
  | cons n _ ih =>
    refine ih (h.2.2.earlier ?_)
    have := h.2.1.laid.ordered
    have := h.1
    omega
  | cons_cons n _ ih => exact ⟨h.1, h.2.1, ih h.2.2⟩

theorem singleton (hn : n.Tiled source) (hfirst : first ≤ n.start) (hlast : n.stop ≤ last) :
    Row source first [n] last :=
  ⟨hfirst, hn, hlast⟩

theorem mem (h : Row source first ns last) (hn : n ∈ ns) :
    n.Tiled source ∧ first ≤ n.start ∧ n.stop ≤ last := by
  have hone : Row source first [n] last := h.sublist (List.singleton_sublist.mpr hn)
  exact ⟨hone.2.1, hone.1, hone.2.2⟩

theorem pairwise (h : Row source first ns last) :
    ns.Pairwise fun a b => a.stop ≤ b.start := by
  induction ns generalizing first with
  | nil => exact .nil
  | cons n rest ih =>
    exact List.pairwise_cons.mpr ⟨fun m hm => (h.2.2.mem hm).2.1, ih h.2.2⟩

/-- A row between two boundaries becomes the children of a node. -/
theorem tiled_branch {kind : Kind} {children : List Node}
    (h : Row source first (children.map bare) last)
    (hkind : kind = .variableDeclarator → first < last)
    (hfirst : Text.IsBoundary source first) (hlast : Text.IsBoundary source last) :
    (branch kind first last children).Tiled source := by
  have hmem : ∀ c ∈ children, c.Tiled source ∧ first ≤ c.start ∧ c.stop ≤ last := by
    intro c hc
    have := h.mem (List.mem_map_of_mem hc)
    rwa [tiled_bare, start_bare, stop_bare] at this
  have hapart := h.pairwise
  simp only [List.pairwise_map, start_bare, stop_bare] at hapart
  exact tiled_iff.mpr ⟨⟨h.le, fun c hc => (hmem c hc).2, hapart, hfirst, hlast, nofun, hkind⟩,
    fun c hc => (hmem c hc).1⟩

end Row

theorem tiled_token {kind : Kind} {start stop : Nat} (hkind : kind ≠ .variableDeclarator)
    (hle : start ≤ stop) (hstart : Text.IsBoundary source start)
    (hstop : Text.IsBoundary source stop) : (token kind start stop).Tiled source :=
  tiled_iff.mpr ⟨⟨hle, nofun, .nil, hstart, hstop, fun _ => rfl, fun h => absurd h hkind⟩, nofun⟩

/-- A leaf without text, at an offset. -/
def bookmark (b : Nat) : Node := token (.other "") b b

theorem tiled_bookmark {b : Nat} (h : Text.IsBoundary source b) : (bookmark b).Tiled source :=
  tiled_token nofun (Nat.le_refl b) h h

/-- A bookmark can be put where a node starts. -/
theorem Row.mark {first last : Nat} {n : Node} {ns : List Node}
    (h : Row source first (n :: ns) last) :
    Row source first (bookmark n.start :: n :: ns) last :=
  ⟨h.1, tiled_bookmark h.2.1.laid.starts, Nat.le_refl n.start, h.2⟩

/-- A node can be replaced by a leaf in its place. -/
theorem Row.leaf {first last : Nat} {kind : Kind} {n : Node} (h : Row source first [n.bare] last)
    (hkind : kind ≠ .variableDeclarator) :
    Row source first [branch kind n.start n.stop []] last := by
  obtain ⟨hfirst, hn, hlast⟩ := h
  rw [start_bare] at hfirst
  rw [Row, stop_bare] at hlast
  have hlaid := (tiled_bare.mp hn).laid
  have hrow : Row source n.start ([].map bare) n.stop := hlaid.ordered
  exact Row.singleton (hrow.tiled_branch (fun heq => absurd heq hkind) hlaid.starts hlaid.stops)
    hfirst hlast

/-- Two bookmarks become the ends of a leaf. -/
theorem Row.token {first last start stop : Nat} {kind : Kind}
    (h : Row source first [bookmark start, bookmark stop] last)
    (hkind : kind ≠ .variableDeclarator) : Row source first [token kind start stop] last := by
  obtain ⟨hfirst, hstart, hle, hstop, hlast⟩ := h
  exact Row.singleton (tiled_token hkind hle hstart.laid.starts hstop.laid.starts) hfirst hlast

/-- A row between two bookmarks becomes a node between them. -/
theorem Row.fold {first last start stop : Nat} {kind : Kind} {children : List Node}
    (h : Row source first (bookmark start :: (children.map bare ++ [bookmark stop])) last)
    (hkind : kind = .variableDeclarator → ∃ c ∈ children, c.start < c.stop) :
    Row source first [branch kind start stop children] last := by
  obtain ⟨hstart, hmark, hrest⟩ := h
  obtain ⟨middle, hchildren, hstop, hmark', hlast⟩ := hrest.split
  have hrow : Row source start (children.map bare) stop := hchildren.later hstop
  refine Row.singleton (hrow.tiled_branch ?_ hmark.laid.starts hmark'.laid.starts) hstart hlast
  intro heq
  obtain ⟨c, hc, hlt⟩ := hkind heq
  have hmem := (hrow.mem (List.mem_map_of_mem hc)).2
  rw [start_bare, stop_bare] at hmem
  omega

/-- The bookmark in front can be used again. -/
theorem Row.fold_behind {first last start stop : Nat} {kind : Kind} {children : List Node}
    (h : Row source first (bookmark start :: (children.map bare ++ [bookmark stop])) last)
    (hkind : kind ≠ .variableDeclarator) :
    Row source first [bookmark start, branch kind start stop children] last :=
  ⟨h.1, h.2.1, Row.fold ⟨Nat.le_refl start, h.2.1, h.2.2⟩ fun heq => absurd heq hkind⟩

end Node

/-! ### Extents of places -/

namespace Place
variable {source : List Char} {p q a b : Place}

theorem Within.tiled (h : Within p q) (ht : p.node.Tiled source) : q.node.Tiled source :=
  ht.below h.node_mem_preorder

/-- What lies within a place lies inside its extent. -/
theorem Within.inside (h : Within p q) (ht : p.node.Tiled source) :
    p.node.start ≤ q.node.start ∧ q.node.stop ≤ p.node.stop := by
  induction h with
  | refl => exact ⟨Nat.le_refl _, Nat.le_refl _⟩
  | child hw hc ih =>
    have hchild := (hw.tiled ht).laid.inside _ (node_mem_children hc)
    omega

theorem stop_le_of_later {ns : List Node} (hns : ns.Pairwise fun m n => m.stop ≤ n.start)
    (ha : a ∈ childrenFrom p ns) (hb : b ∈ a.later) : a.node.stop ≤ b.node.start := by
  induction ns with
  | nil => cases ha
  | cons n rest ih =>
    rw [List.pairwise_cons] at hns
    rcases List.mem_cons.mp ha with rfl | ha
    · apply hns.1
      rw [← map_node_childrenFrom p rest]
      exact List.mem_map_of_mem hb
    · exact ih hns.2 ha

/-- A later sibling lies after. -/
theorem apart_of_later (ht : p.node.Tiled source) (ha : a ∈ p.children) (hb : b ∈ a.later) :
    a.node.stop ≤ b.node.start :=
  stop_le_of_later ht.laid.apart ha hb

theorem eq_or_apart (ht : p.node.Tiled source) (ha : a ∈ p.children) (hb : b ∈ p.children) :
    a = b ∨ a.node.stop ≤ b.node.start ∨ b.node.stop ≤ a.node.start := by
  rcases childrenFrom_cases ha hb with h | h | h
  · exact .inl h
  · exact .inr (.inl (apart_of_later ht ha h))
  · exact .inr (.inr (apart_of_later ht hb h))

/-- Two places of a tree are the same, one is strictly within the other, or they are apart. -/
theorem nested_or_apart {root : Node} (ht : root.Tiled source)
    (hp : Within (.root root) p) (hq : Within (.root root) q) :
    p = q ∨ (∃ c ∈ p.children, Within c q) ∨ (∃ c ∈ q.children, Within c p) ∨
      p.node.stop ≤ q.node.start ∨ q.node.stop ≤ p.node.start := by
  rcases within_cases hp hq with h | h | h | ⟨s, a, b, hs, ha, hb, h⟩
  · exact .inl h
  · exact .inr (.inl h)
  · exact .inr (.inr (.inl h))
  · have hts : s.node.Tiled source := hs.tiled ht
    have hab := apart_of_later hts ha hb
    have hta := hts.child (node_mem_children ha)
    have htb := hts.child (node_mem_children (later_subset ha hb))
    rcases h with ⟨hap, hbq⟩ | ⟨haq, hbp⟩
    · have := hap.inside hta
      have := hbq.inside htb
      exact .inr (.inr (.inr (.inl (by omega))))
    · have := haq.inside hta
      have := hbp.inside htb
      exact .inr (.inr (.inr (.inr (by omega))))

end Place
end PropShear
