import PropShear.Proofs.Removal.Extent
import PropShear.Removal.Basic

/-! What the node at a place asks for.

A node of one of the three shapes asks for exactly one removal and other nodes ask for none
(`at?_cases`). The bytes of the removal are those of the statement around the node or of the
declarator around it with one gap (`Spans`); they always hold the node itself and never cut a
character. -/
namespace PropShear

variable {source : List Char} {modules : List Specifier} {root : Node} {p q d : Place}
  {start stop : Nat}

namespace Extent

/-- The semicolon that goes with a class member: the sibling right after it, if it is one. -/
def ownSemicolon? (p : Place) : Option Node :=
  if p.parentKind? = some .classBody then p.next?.filter (·.kind == .semicolon) else none

theorem ofStatement_eq (p : Place) :
    ofStatement p = (p.node.start, ((ownSemicolon? p).getD p.node).stop) := by
  unfold ofStatement ownSemicolon?
  split
  · next next hkind hnext =>
    rw [hkind, hnext, if_pos rfl]
    by_cases hsemicolon : next.kind = .semicolon <;> simp [Option.filter, hsemicolon]
  · next hno =>
    split
    · next hkind =>
      cases hnext : p.next? with
      | none => rfl
      | some m => exact absurd hnext (hno m hkind)
    · rfl

theorem ownSemicolon?_eq_some {m : Node} (h : ownSemicolon? p = some m) :
    p.parentKind? = some .classBody ∧ p.next? = some m ∧ m.kind = .semicolon := by
  unfold ownSemicolon? at h
  split at h
  · next hkind =>
    obtain ⟨hnext, hsemicolon⟩ := Option.filter_eq_some_iff.mp h
    exact ⟨hkind, hnext, by simpa using hsemicolon⟩
  · cases h

/-- The bytes that a match at a place takes with it: those of the whole tree, of a child of a
container of statements with its own semicolon, or of one declarator of several with one gap. -/
inductive Spans (source : List Char) (modules : List Specifier) (root : Node) (p : Place) :
    Nat → Nat → Prop
  | whole : Spans source modules root p root.start root.stop
  | statement {o s : Place} (ho : (Place.root root).Within o)
      (hcontainer : o.node.kind.isContainer = true) (hs : s ∈ o.children) (hp : s.Within p) :
    Spans source modules root p s.node.start ((ownSemicolon? s).getD s.node).stop
  | declarator {q d : Place} {start stop : Nat} (hq : (Place.root root).Within q)
      (hdecl : q.node.kind.isDeclaration = true) (hd : d ∈ q.declarators) (hr : d.Reaches p)
      (hdoomed : d.Doomed source modules)
      (cut : Cut (Place.Doomed source modules) q.declarators d start stop) :
    Spans source modules root p start stop

theorem spans_enclosing (hp : (Place.root root).Within p) :
    Spans source modules root p (ofStatement (enclosing p)).1 (ofStatement (enclosing p)).2 := by
  rw [ofStatement_eq]
  rcases enclosing_top hp with htop | ⟨o, ho, hcontainer, hs⟩
  · rw [htop]
    exact .whole
  · exact .statement ho hcontainer hs (enclosing_within hp).2

/-- The semicolon of a class member is the sibling right after it. -/
theorem ownSemicolon?_later {o s : Place} {m : Node} (hs : s ∈ o.children)
    (h : ownSemicolon? s = some m) : ∃ b, s.later = b :: b.later ∧ b ∈ o.children ∧ b.node = m :=
  Place.later_of_next hs (ownSemicolon?_eq_some h).2.1

/-- A statement ends with its own node or with a later child of its container. -/
theorem statement_bounds {o s : Place} (ht : o.node.Tiled source) (hs : s ∈ o.children) :
    s.node.stop ≤ ((ownSemicolon? s).getD s.node).stop ∧
      ((ownSemicolon? s).getD s.node).stop ≤ o.node.stop ∧
      Text.IsBoundary source ((ownSemicolon? s).getD s.node).stop := by
  have hinside := ht.laid.inside s.node (Place.node_mem_children hs)
  cases hown : ownSemicolon? s with
  | none =>
    have hlaid := (ht.child (Place.node_mem_children hs)).laid
    exact ⟨Nat.le_refl _, hinside.2, hlaid.stops⟩
  | some m =>
    obtain ⟨b, hlater, hb, rfl⟩ := ownSemicolon?_later hs hown
    have hafter := Place.apart_of_later ht hs (hlater ▸ List.mem_cons_self)
    have hlaid := (ht.child (Place.node_mem_children hb)).laid
    have hbinside := ht.laid.inside b.node (Place.node_mem_children hb)
    exact ⟨Nat.le_trans hafter hlaid.ordered, hbinside.2, hlaid.stops⟩

/-- A declarator with a gap on one side. -/
theorem Cut.bounds {gone : Place → Prop} (cut : Cut gone q.declarators d start stop)
    (ht : q.node.Tiled source) : start ≤ d.node.start ∧ d.node.stop ≤ stop ∧
      Text.IsBoundary source start ∧ Text.IsBoundary source stop := by
  have hlaid : ∀ {e : Place} {i : Nat}, q.declarators[i]? = some e → e.node.Laid source :=
    fun he => (ht.child (Place.node_mem_children
      (mem_declarators.mp (List.mem_of_getElem? he)).1)).laid
  cases cut with
  | gapBefore hbefore hd _ =>
    have hapart := declarators_lt ht hbefore hd (Nat.lt_succ_self _)
    exact ⟨hapart, Nat.le_refl _, (hlaid hbefore).stops, (hlaid hd).stops⟩
  | gapAfter hd hafter _ =>
    have hapart := declarators_lt ht hd hafter (Nat.lt_succ_self _)
    exact ⟨Nat.le_refl _, hapart, (hlaid hd).starts, (hlaid hafter).starts⟩

/-- What a match takes with it holds the whole match and cuts no character. -/
theorem Spans.bounds (h : Spans source modules root p start stop) (ht : root.Tiled source)
    (hp : (Place.root root).Within p) : start ≤ p.node.start ∧ p.node.stop ≤ stop ∧
      Text.IsBoundary source start ∧ Text.IsBoundary source stop := by
  cases h with
  | whole =>
    have hinside := hp.inside ht
    exact ⟨hinside.1, hinside.2, ht.laid.starts, ht.laid.stops⟩
  | @statement o s ho _ hs hsp =>
    have hto : o.node.Tiled source := ho.tiled ht
    have hts := hto.child (Place.node_mem_children hs)
    have hinside := hsp.inside hts
    obtain ⟨hstop, -, hboundary⟩ := statement_bounds hto hs
    exact ⟨hinside.1, Nat.le_trans hinside.2 hstop, hts.laid.starts, hboundary⟩
  | @declarator q d _ _ hq _ hd hr _ cut =>
    have htq : q.node.Tiled source := hq.tiled ht
    have hinside := hr.within.inside (htq.child (Place.node_mem_children (mem_declarators.mp hd).1))
    obtain ⟨hstart, hstop, hboundaries⟩ := cut.bounds htq
    exact ⟨Nat.le_trans hstart hinside.1, Nat.le_trans hinside.2 hstop, hboundaries⟩

end Extent

namespace Removal

/-- The node has one of the three shapes. -/
inductive Asks (source : List Char) (modules : List Specifier) (n : Node) :
    Reason → Option Specifier → Prop
  | imported {m : Specifier} (h : Shape.importOf? source modules n = .ok (some m)) :
    Asks source modules n .imported (some m)
  | required {m : Specifier} (h : Shape.requireOf? source modules n = .ok (some m)) :
    Asks source modules n .required (some m)
  | assigned (h : Shape.assigns source n = .ok true) : Asks source modules n .assigned none

/-- The ends of the removal fall between characters of the text. -/
structure Fits (source : List Char) (r : Removal) : Prop where
  ordered : r.start ≤ r.stop
  starts : Text.IsBoundary source r.start
  stops : Text.IsBoundary source r.stop

/-! ### One equation for each shape -/

theorem importOf?_kind {n : Node} {m : Specifier}
    (h : Shape.importOf? source modules n = .ok (some m)) : n.kind = .importStatement := by
  unfold Shape.importOf? at h
  split at h
  · next hkind => exact hkind
  · cases h

theorem assigns_kind {n : Node} (h : Shape.assigns source n = .ok true) :
    n.kind = .expressionStatement := by
  unfold Shape.assigns at h
  split at h
  · next hkind => exact hkind
  · cases h

theorem at?_imported {m : Specifier} (h : Shape.importOf? source modules p.node = .ok (some m)) :
    at? source modules p = .ok (some ⟨.imported, some m,
      (Extent.ofStatement (Extent.enclosing p)).1,
      (Extent.ofStatement (Extent.enclosing p)).2⟩) := by
  unfold at?
  rw [importOf?_kind h]
  simp only [ofImport?, h]
  rfl

theorem at?_required {m : Specifier} {span? : Option (Nat × Nat)}
    (h : Shape.requireOf? source modules p.node = .ok (some m))
    (hspan : Extent.ofDeclarator? source modules p = .ok span?) :
    at? source modules p = .ok (some ⟨.required, some m,
      (span?.getD (Extent.ofStatement (Extent.enclosing p))).1,
      (span?.getD (Extent.ofStatement (Extent.enclosing p))).2⟩) := by
  have hkind : p.node.kind = .callExpression := Node.Requires.kind ⟨m, h⟩
  unfold at?
  rw [hkind]
  simp only [ofRequire?, h, hspan]
  rfl

theorem at?_assigned (h : Shape.assigns source p.node = .ok true) :
    at? source modules p = .ok (some ⟨.assigned, none,
      (Extent.ofStatement (Extent.enclosing p)).1,
      (Extent.ofStatement (Extent.enclosing p)).2⟩) := by
  unfold at?
  rw [assigns_kind h]
  simp only [ofAssignment?, h]
  rfl

theorem at?_unread (himport : Shape.importOf? source modules p.node = .ok none)
    (hrequire : Shape.requireOf? source modules p.node = .ok none)
    (hassign : Shape.assigns source p.node = .ok false) : at? source modules p = .ok none := by
  unfold at?
  split
  · simp only [ofImport?, himport]
    rfl
  · simp only [ofRequire?, hrequire]
    rfl
  · simp only [ofAssignment?, hassign]
    rfl
  · rfl

/-- Every shape is read without fail, and none is found in a node of another shape. -/
theorem reads_none {n : Node} (wf : n.WellFormed source)
    (h : ∀ reason module?, ¬ Asks source modules n reason module?) :
    Shape.importOf? source modules n = .ok none ∧ Shape.requireOf? source modules n = .ok none ∧
      Shape.assigns source n = .ok false := by
  obtain ⟨imported, himport⟩ := importOf?_succeeds modules wf
  obtain ⟨required, hrequire⟩ := requireOf?_succeeds modules wf
  obtain ⟨assigned, hassign⟩ := assigns_succeeds wf
  refine ⟨?_, ?_, ?_⟩
  · cases imported with
    | none => exact himport
    | some m => exact absurd (.imported himport) (h _ _)
  · cases required with
    | none => exact hrequire
    | some m => exact absurd (.required hrequire) (h _ _)
  · cases assigned with
    | false => exact hassign
    | true => exact absurd (.assigned hassign) (h _ _)

/-- A climb from a require that stops, stops at a declarator of a declaration. -/
theorem climb?_of_requires (ht : root.Tiled source) (hp : (Place.root root).Within p)
    (h : p.node.Requires source modules) {d : Place} (hclimb : Extent.climb? p = some d) :
    ∃ q, (Place.root root).Within q ∧ q.node.kind.isDeclaration = true ∧ d ∈ q.declarators ∧
      d.Reaches p := by
  have hopen : p.node.kind.isContainer = false := by rw [h.kind]; rfl
  obtain ⟨q, hq, hdecl, hd, hkind, hr⟩ := Extent.climb?_reaches hp hopen hclimb
  have htd := (hq.tiled ht).child (Place.node_mem_children hd)
  have hnamed := hr.named htd h.children_ne_nil
  exact ⟨q, hq, hdecl, Extent.mem_declarators.mpr ⟨hd, hnamed, hkind⟩, hr⟩

theorem declarator?_of_requires (ht : root.Tiled source) (hp : (Place.root root).Within p)
    (h : p.node.Requires source modules) {found : Node × Node}
    (hclimb : Extent.declarator? p = some found) :
    ∃ q d, (Place.root root).Within q ∧ q.node.kind.isDeclaration = true ∧ d ∈ q.declarators ∧
      d.Reaches p ∧ found = (d.node, q.node) := by
  have hplace := hclimb
  rw [Extent.declarator?_eq] at hplace
  obtain ⟨d, hd, -⟩ := Option.bind_eq_some_iff.mp hplace
  obtain ⟨q, hq, hdecl, hmem, hr⟩ := climb?_of_requires ht hp h hd
  rw [Extent.declarator?_of_climb? (Extent.mem_declarators.mp hmem).1 hd] at hclimb
  exact ⟨q, d, hq, hdecl, hmem, hr, (Option.some.inj hclimb).symm⟩

theorem ofDeclarator?_none (h : Extent.declarator? p = none) :
    Extent.ofDeclarator? source modules p = .ok none := by
  unfold Extent.ofDeclarator?
  rw [h]
  rfl

/-! ### Failures -/

theorem at?_import_fails {e : Fault} (h : Shape.importOf? source modules p.node = .error e) :
    at? source modules p = .error e := by
  have hkind : p.node.kind = .importStatement := by
    unfold Shape.importOf? at h
    split at h
    · next hkind => exact hkind
    · cases h
  unfold at?
  rw [hkind]
  simp only [ofImport?, h]
  rfl

theorem at?_require_fails {e : Fault} (h : Shape.requireOf? source modules p.node = .error e) :
    at? source modules p = .error e := by
  have hkind : p.node.kind = .callExpression := by
    unfold Shape.requireOf? at h
    split at h
    · next hkind => exact hkind
    · cases h
  unfold at?
  rw [hkind]
  simp only [ofRequire?, h]
  rfl

theorem at?_declarator_fails {m : Specifier} {e : Fault}
    (h : Shape.requireOf? source modules p.node = .ok (some m))
    (hspan : Extent.ofDeclarator? source modules p = .error e) :
    at? source modules p = .error e := by
  have hkind : p.node.kind = .callExpression := Node.Requires.kind ⟨m, h⟩
  unfold at?
  rw [hkind]
  simp only [ofRequire?, h, hspan]
  rfl

/-! ### All cases -/

/-- What a place may be told to ask for: one removal if it has one of the three shapes and none
otherwise, unless an escape in the tree cannot be read. -/
inductive Answers (source : List Char) (modules : List Specifier) (root : Node) (p : Place) :
    Except Fault (Option Removal) → Prop
  | removal {r : Removal} (hasks : Asks source modules p.node r.reason r.module?)
      (hspans : Extent.Spans source modules root p r.start r.stop) :
    Answers source modules root p (.ok (some r))
  | nothing (hnone : ∀ reason module?, ¬ Asks source modules p.node reason module?) :
    Answers source modules root p (.ok none)
  | overflow {e : Fault} (he : Fault.IsOverflow source root e) :
    Answers source modules root p (.error e)

/-- A require takes its statement or the declarator around it. -/
theorem at?_required_answers (ht : root.Tiled source) (hp : (Place.root root).Within p)
    {m : Specifier} (h : Shape.requireOf? source modules p.node = .ok (some m)) :
    Answers source modules root p (at? source modules p) := by
  have hrequires : p.node.Requires source modules := ⟨m, h⟩
  cases hclimb : Extent.declarator? p with
  | none =>
    rw [at?_required h (ofDeclarator?_none hclimb)]
    exact .removal (.required h) (Extent.spans_enclosing hp)
  | some found =>
    obtain ⟨q, d, hq, hdecl, hd, hr, rfl⟩ := declarator?_of_requires ht hp hrequires hclimb
    have hdoomed : d.Doomed source modules := ⟨p, hr, hrequires⟩
    rcases Extent.ofDeclarator?_cases (hq.tiled ht) hd hdoomed hclimb with
      ⟨-, hspan⟩ | ⟨-, start, stop, hcut, hspan⟩ | ⟨e, hspan, hlarge⟩
    · rw [at?_required h hspan]
      exact .removal (.required h) (Extent.spans_enclosing hp)
    · rw [at?_required h hspan]
      exact .removal (.required h) (.declarator hq hdecl hd hr hdoomed hcut)
    · rw [at?_declarator_fails h hspan]
      exact .overflow ⟨hlarge.1, hlarge.2.above hq.node_mem_preorder⟩

theorem at?_answers (ht : root.Tiled source) (hp : (Place.root root).Within p) :
    Answers source modules root p (at? source modules p) := by
  have hmem : p.node ∈ root.preorder := hp.node_mem_preorder
  have htp : p.node.Tiled source := ht.below hmem
  cases himport : Shape.importOf? source modules p.node with
  | error e =>
    rw [at?_import_fails himport]
    exact .overflow ((importOf?_errs modules htp).above hmem e himport)
  | ok imported =>
    cases hrequire : Shape.requireOf? source modules p.node with
    | error e =>
      rw [at?_require_fails hrequire]
      exact .overflow ((requireOf?_errs modules htp).above hmem e hrequire)
    | ok required =>
      cases hassign : Shape.assigns source p.node with
      | error e => exact (assigns_errs (P := fun _ => False) htp e hassign).elim
      | ok assigned =>
        cases imported with
        | some m =>
          rw [at?_imported himport]
          exact .removal (.imported himport) (Extent.spans_enclosing hp)
        | none =>
          cases required with
          | some m => exact at?_required_answers ht hp hrequire
          | none =>
            cases assigned with
            | true =>
              rw [at?_assigned hassign]
              exact .removal (.assigned hassign) (Extent.spans_enclosing hp)
            | false =>
              rw [at?_unread himport hrequire hassign]
              refine .nothing fun reason module? hasks => ?_
              cases hasks with
              | imported h => rw [himport] at h; cases h
              | required h => rw [hrequire] at h; cases h
              | assigned h => rw [hassign] at h; cases h

/-- A node of one of the three shapes asks for one removal, any other node for none. -/
theorem at?_cases (wf : root.WellFormed source) (hp : (Place.root root).Within p) :
    (∃ r, at? source modules p = .ok (some r) ∧ Asks source modules p.node r.reason r.module? ∧
      Extent.Spans source modules root p r.start r.stop) ∨
    at? source modules p = .ok none ∧
      ∀ reason module?, ¬ Asks source modules p.node reason module? := by
  have hanswer : Answers source modules root p (at? source modules p) := at?_answers wf.tiled hp
  generalize at? source modules p = answer at hanswer ⊢
  cases hanswer with
  | removal hasks hspans => exact .inl ⟨_, rfl, hasks, hspans⟩
  | nothing hnone => exact .inr ⟨rfl, hnone⟩
  | overflow he => exact absurd he.2 wf.not_overflows

/-! ### All removals of a tree -/

/-- Every place of the tree is asked, in order. -/
theorem find_ok (modules : List Specifier) (wf : root.WellFormed source) :
    ∃ found : List (Option Removal), find source modules root = .ok (found.filterMap id) ∧
      root.places.map (at? source modules) = found.map .ok := by
  have hall : ∀ p ∈ root.places, Succeeds (at? source modules p) := by
    intro p hp
    rcases at?_cases wf (Node.mem_places.mp hp) with ⟨r, hat, -⟩ | ⟨hat, -⟩
    · exact ⟨_, hat⟩
    · exact ⟨_, hat⟩
  obtain ⟨found, hfound, hmap⟩ := mapM_succeeds hall
  refine ⟨found, ?_, hmap⟩
  rw [find, hfound]
  rfl

/-- The removals of a tiled tree can be told unless an escape in it cannot be read. -/
theorem find_errs (modules : List Specifier) (ht : root.Tiled source) :
    Errs (Fault.IsOverflow source root) (find source modules root) := by
  refine .bind (.mapM fun p hp => ?_) fun found _ => .ok _
  have hanswer : Answers source modules root p (at? source modules p) :=
    at?_answers ht (Node.mem_places.mp hp)
  intro e he
  rw [he] at hanswer
  cases hanswer with
  | overflow he => exact he

/-- The removals of a tree are those that its places ask for. -/
theorem mem_find {removals : List Removal} (h : find source modules root = .ok removals)
    {r : Removal} :
    r ∈ removals ↔ ∃ p, (Place.root root).Within p ∧ at? source modules p = .ok (some r) := by
  obtain ⟨found, hfound, hremovals⟩ := bind_eq_ok h
  cases hremovals
  have hmem : r ∈ found.filterMap id ↔
      (Except.ok (some r) : Except Fault (Option Removal)) ∈ found.map .ok := by
    simp
  rw [hmem, ← map_of_mapM hfound, List.mem_map]
  simp only [Node.mem_places]

/-- Every removal of a tree is asked for by a match and takes one of its three kinds of spans. -/
theorem find_spans {removals : List Removal} (ht : root.Tiled source)
    (h : find source modules root = .ok removals) {r : Removal} (hr : r ∈ removals) :
    ∃ p, (Place.root root).Within p ∧ Asks source modules p.node r.reason r.module? ∧
      Extent.Spans source modules root p r.start r.stop := by
  obtain ⟨p, hp, hat⟩ := (mem_find h).mp hr
  have hanswer : Answers source modules root p (at? source modules p) := at?_answers ht hp
  rw [hat] at hanswer
  cases hanswer with
  | removal hasks hspans => exact ⟨p, hp, hasks, hspans⟩

theorem find_fits {removals : List Removal} (ht : root.Tiled source)
    (h : find source modules root = .ok removals) {r : Removal} (hr : r ∈ removals) :
    r.Fits source := by
  obtain ⟨p, hp, -, hspans⟩ := find_spans ht h hr
  obtain ⟨hstart, hstop, hstarts, hstops⟩ := hspans.bounds ht hp
  have hordered := (hp.tiled ht).laid.ordered
  exact ⟨by omega, hstarts, hstops⟩

end Removal
end PropShear
