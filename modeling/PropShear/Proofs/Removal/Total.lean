import PropShear.Proofs.Except
import PropShear.Proofs.Tree.WellFormed
import PropShear.Removal.Shape

/-! Reading a tree only fails at an escape that names too large a number.

Texts of nodes do not cut characters, so the three shapes of code can be told at every node of a
tiled tree unless it overflows (`importOf?_errs`, `requireOf?_errs` and `assigns_errs`), and at
every node of a well-formed tree. -/
namespace PropShear

/-- The error of an escape that names too large a number, in a tree that has one. -/
def Fault.IsOverflow (source : List Char) (n : Node) (e : Fault) : Prop :=
  e = .escapeTooLarge ∧ n.Overflows source

section
variable {source : List Char} {n m : Node}

theorem Errs.above {α : Type} {x : Except Fault α} (h : Errs (Fault.IsOverflow source m) x)
    (hm : m ∈ n.preorder) : Errs (Fault.IsOverflow source n) x :=
  h.mono fun _ he => ⟨he.1, he.2.above hm⟩

theorem Errs.succeeds_of_wellFormed {α : Type} {x : Except Fault α}
    (h : Errs (Fault.IsOverflow source n) x) (wf : n.WellFormed source) : Succeeds x :=
  h.succeeds fun _ he => wf.not_overflows he.2

/-! ### Literals -/

theorem textOf_succeeds (h : n.Tiled source) : Succeeds (Literal.textOf source n) := by
  have hsome := Text.slice?_isSome h.laid.starts h.laid.stops
  obtain ⟨text, htext⟩ := Option.isSome_iff_exists.mp hsome
  exact ⟨text, by rw [Literal.textOf, Node.text?, htext]⟩

theorem textOf_errs {P : Fault → Prop} (h : n.Tiled source) :
    Errs P (Literal.textOf source n) := by
  obtain ⟨text, htext⟩ := textOf_succeeds h
  rw [htext]
  exact .ok text

theorem Node.mem_children_of_mem_named {c : Node} (hc : c ∈ n.namedChildren) : c ∈ n.children :=
  (List.mem_filter.mp hc).1

theorem value?_errs (h : n.Tiled source) :
    Errs (Fault.IsOverflow source n) (Literal.value? source n) := by
  unfold Literal.value?
  split
  · next hstring =>
    refine .bind (.mapM fun c hc => ?_) fun points _ => .ok _
    refine .bind (textOf_errs (h.child (Node.mem_children_of_mem_named hc))) fun text htext => ?_
    split
    · next hescape =>
      intro e he
      obtain ⟨rfl, hlarge⟩ := Literal.cookEscape_errs he
      have htext? : c.text? source = some text := by
        unfold Literal.textOf at htext
        split at htext
        · next raw hraw =>
          cases htext
          exact hraw
        · cases htext
      exact ⟨rfl, n, n.mem_preorder_self, hstring, c, hc, hescape, text, htext?, hlarge⟩
    · exact .ok _
  · exact .ok _

/-! ### The three shapes -/

theorem Node.mem_children_of_childIn {role : Role} {c : Node} (h : n.childIn role = some c) :
    c ∈ n.children :=
  List.mem_of_find?_eq_some h

theorem Node.mem_children_of_mem_parts {c : Node} (hc : c ∈ n.parts) : c ∈ n.children :=
  Node.mem_children_of_mem_named (List.mem_filter.mp hc).1

theorem Node.mem_preorder_of_mem_children {c : Node} (hc : c ∈ n.children) : c ∈ n.preorder :=
  mem_preorder_of_child hc c.mem_preorder_self

theorem importModule?_errs (h : n.Tiled source) :
    Errs (Fault.IsOverflow source n) (Shape.importModule? source n) := by
  unfold Shape.importModule?
  split
  · next literal hliteral =>
    have hmem : literal ∈ n.preorder := by
      unfold Shape.importSource? at hliteral
      rcases Option.or_eq_some_iff.mp hliteral with hsource | ⟨-, hclause⟩
      · exact Node.mem_preorder_of_mem_children (Node.mem_children_of_childIn hsource)
      · obtain ⟨clause, hfind, hsource⟩ := Option.bind_eq_some_iff.mp hclause
        refine Node.mem_preorder_of_child
          (Node.mem_children_of_mem_named (List.mem_of_find?_eq_some hfind)) ?_
        exact Node.mem_preorder_of_mem_children (Node.mem_children_of_childIn hsource)
    exact (value?_errs (h.below hmem)).above hmem
  · exact .ok _

theorem requireModule?_errs (h : n.Tiled source) :
    Errs (Fault.IsOverflow source n) (Shape.requireModule? source n) := by
  unfold Shape.requireModule?
  split
  · next callee hcallee =>
    split
    · exact .ok _
    refine .bind (textOf_errs (h.child (Node.mem_children_of_childIn hcallee))) fun text _ => ?_
    split
    · exact .ok _
    split
    · next arguments harguments =>
      split
      · exact .ok _
      split
      · next argument hparts =>
        have hmem : argument ∈ n.preorder := by
          refine Node.mem_preorder_of_child (Node.mem_children_of_childIn harguments) ?_
          exact Node.mem_preorder_of_mem_children
            (Node.mem_children_of_mem_parts (hparts ▸ List.mem_singleton_self argument))
        exact (value?_errs (h.below hmem)).above hmem
      · exact .ok _
    · exact .ok _
  · exact .ok _

mutual

theorem Shape.unwrap?_mem (n m : Node) (h : unwrap? n = some m) : m ∈ n.preorder := by
  match n with
  | .mk kind start stop role named missing flagged children =>
    rw [unwrap?] at h
    split at h
    · exact List.mem_cons_of_mem _ (unwrapOnly?_mem children m h)
    · cases h
      exact Node.mem_preorder_self _

theorem Shape.unwrapOnly?_mem (ns : List Node) (m : Node) (h : unwrapOnly? ns = some m) :
    m ∈ Node.preorderAll ns := by
  match ns with
  | [] => cases h
  | n :: rest =>
    rw [unwrapOnly?] at h
    split at h
    · split at h
      · cases h
      · exact List.mem_append_left _ (unwrap?_mem n m h)
    · exact List.mem_append_right _ (unwrapOnly?_mem rest m h)

end

theorem assignedProperty?_errs {P : Fault → Prop} (h : n.Tiled source) :
    Errs P (Shape.assignedProperty? source n) := by
  unfold Shape.assignedProperty?
  split
  · next expression hparts =>
    have hexpression : expression.Tiled source :=
      h.child (Node.mem_children_of_mem_parts (hparts ▸ List.mem_singleton_self expression))
    split
    · next assignment hunwrap =>
      have hassignment := hexpression.below (Shape.unwrap?_mem _ _ hunwrap)
      split
      · split
        · next target htarget =>
          obtain ⟨left, hleft, hinner⟩ := Option.bind_eq_some_iff.mp htarget
          have hleft := hassignment.child (Node.mem_children_of_childIn hleft)
          have htiled := hleft.below (Shape.unwrap?_mem _ _ hinner)
          split
          · exact .ok _
          split
          · next property hproperty =>
            split
            · exact .ok _
            have hchild := htiled.child (Node.mem_children_of_childIn hproperty)
            exact (textOf_errs hchild).bind fun _ _ => .ok _
          · exact .ok _
        · exact .ok _
      · exact .ok _
    · exact .ok _
  · exact .ok _

theorem importOf?_errs (modules : List Specifier) (h : n.Tiled source) :
    Errs (Fault.IsOverflow source n) (Shape.importOf? source modules n) := by
  unfold Shape.importOf?
  split
  · exact (importModule?_errs h).bind fun _ _ => .ok _
  · exact .ok _

theorem requireOf?_errs (modules : List Specifier) (h : n.Tiled source) :
    Errs (Fault.IsOverflow source n) (Shape.requireOf? source modules n) := by
  unfold Shape.requireOf?
  split
  · exact (requireModule?_errs h).bind fun _ _ => .ok _
  · exact .ok _

theorem assigns_errs {P : Fault → Prop} (h : n.Tiled source) :
    Errs P (Shape.assigns source n) := by
  unfold Shape.assigns
  split
  · exact (assignedProperty?_errs h).bind fun _ _ => .ok _
  · exact .ok _

theorem importOf?_succeeds (modules : List Specifier) (h : n.WellFormed source) :
    Succeeds (Shape.importOf? source modules n) :=
  (importOf?_errs modules h.tiled).succeeds_of_wellFormed h

theorem requireOf?_succeeds (modules : List Specifier) (h : n.WellFormed source) :
    Succeeds (Shape.requireOf? source modules n) :=
  (requireOf?_errs modules h.tiled).succeeds_of_wellFormed h

theorem assigns_succeeds (h : n.WellFormed source) : Succeeds (Shape.assigns source n) :=
  (assigns_errs h.tiled).succeeds_of_wellFormed h

end
end PropShear
