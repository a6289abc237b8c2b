import PropShear.Grammar.Element
import PropShear.Grammar.Member
import PropShear.Proofs.Grammar.Construct

/-! Members of objects and classes and JSX elements are read in order. -/
namespace PropShear.Grammar
open Node (Row bookmark)

variable {source : List Char}

namespace Rules.Sound
variable {r : Rules} (h : r.Sound source)
include h

/-! ### Objects -/

theorem method (decorators : List Node) :
    After source (nodes decorators) (r.method decorators) := by
  unfold Rules.method
  exact .bind (.many modifier_tidy) fun _ => .bind (.optional char_tidy) fun _ =>
    .bind h.memberName fun _ => .ite_bind (.optional mark_tidy) <| .bind h.signature fun _ =>
    .bind h.block fun _ => .pure (by simp)

theorem object : Tidy source r.object := by
  unfold Rules.object
  refine .construct (.bind char_tidy fun _ => .alone (sparseList_tidy
    (.firstOf ⟨h.spread, .construct (h.method []), .construct ?pair, ?shorthand⟩)))
  case pair =>
    exact .bind h.memberName fun _ => .bind mark_tidy fun _ => .bind h.expression fun _ =>
      .pure (by simp)
  case shorthand =>
    exact .bind identifier_tidy fun _ => .pure_of_row fun _ _ hrow => Row.leaf hrow nofun

/-! ### Classes -/

omit h in
theorem memberEnds {tail : Tail} : Tidy source (r.memberEnds tail) :=
  .bind remaining_tidy fun _ => .ite (.pure (by simp)) (.bind comes_tidy fun _ =>
    .bind comes_tidy fun _ => .alone require_tidy)

theorem field : Tidy source r.field := by
  unfold Rules.field
  refine .bind ?_ fun ⟨_, _⟩ => .bind memberEnds fun _ => .pure (by simp)
  exact .bind_here fun _ => .bind (.many h.decorator) fun _ => .bind (.many modifier_tidy) fun _ =>
    .bind h.memberName fun _ => .ite_bind (.optional (.orElse mark_tidy mark_tidy)) <|
    .bind (typed h.typeAnnotation) fun _ => .bind (.optional h.initializer) fun _ =>
    .bind_offset fun _ => .holding rfl nofun (by simp)

theorem methodSignature : Tidy source r.methodSignature :=
  .bind require_tidy fun _ => .bind (.construct (.bind (.many modifier_tidy) fun _ =>
    .bind (.optional char_tidy) fun _ => .bind h.memberName fun _ =>
    .bind (.optional mark_tidy) fun _ => .bind h.signature fun _ => .pure (by simp))) fun _ =>
    .bind memberEnds fun _ => .pure (by simp)

theorem classIndexSignature : Tidy source r.classIndexSignature :=
  .bind require_tidy fun _ => .bind (.construct (.bind (.many modifier_tidy) fun _ =>
    .bind h.indexSignature fun _ => .pure (by simp))) fun _ =>
    .bind memberEnds fun _ => .pure (by simp)

omit h in
theorem memberSeparator : Tidy source r.memberSeparator :=
  .bind_here fun _ => .bind peek_tidy fun _ => .bind require_tidy fun _ =>
    .bind advance_tidy fun _ => .bind_offset fun _ => .pure_of_row fun _ _ hrow =>
    Row.token (hrow.sublist (by simp)) (by split <;> nofun)

theorem classMember : Tidy source r.classMember := by
  unfold Rules.classMember
  have one : ∀ {p : Parser Node}, Tidy source p → Tidy source (do return [← p]) := fun hp =>
    .bind hp fun _ => .pure (by simp)
  refine .firstOf ⟨one comment_tidy, one memberSeparator, one (.build nofun ?block), ?method,
    one h.classIndexSignature, one h.field⟩
  case block => exact .bind keyword_tidy fun _ => .bind h.block fun _ => .pure (by simp)
  case method =>
    refine .bind_here fun _ => .bind (.many h.decorator) fun _ => .ite ?_ ?_
    · exact .bind (.orElse (.construct (h.method [])) h.methodSignature) fun _ => .pure (by simp)
    · exact .absorb (h.method _) fun _ => .bind_offset fun _ => .holding rfl nofun (by simp)

theorem classBody : Tidy source r.classBody :=
  .build nofun (.bind char_tidy fun _ => .bind (.many h.classMember) fun _ =>
    .bind char_tidy fun _ => .pure (by simp))

theorem heritage : Tidy source r.heritage := by
  unfold Rules.heritage
  have hitem : Tidy source (do
      let value ← r.operand .inner
      return value :: (← optional r.typeArguments).toList) :=
    .bind h.operand fun _ => .bind (.optional h.typeArguments) fun _ => .pure (by simp)
  refine .construct (.ite (.bind (.optional ?extended) fun _ => .bind (.optional ?implemented)
    fun _ => .bind require_tidy fun _ => .pure (by simp)) ?plain)
  case extended =>
    exact .bind keyword_tidy fun _ => .bind hitem fun _ =>
      .bind (.many (.bind mark_tidy fun _ => .alone hitem)) fun _ => .pure (by simp)
  case implemented =>
    exact .bind keyword_tidy fun _ => .bind h.type fun _ =>
      .bind (.many (.bind mark_tidy fun _ => .alone h.type)) fun _ => .pure (by simp)
  case plain => exact .bind keyword_tidy fun _ => .bind h.expression fun _ => .pure (by simp)

theorem classRest {needsName : Bool} : Tidy source (r.classRest needsName) :=
  .bind keyword_tidy fun _ => .bind (.optional (.bind peekWord_tidy fun _ =>
    .bind require_tidy fun _ => .alone bindingName_tidy)) fun _ => .bind require_tidy fun _ =>
    .bind (typed h.typeParameters) fun _ => .bind (.optional h.heritage) fun _ =>
    .bind h.classBody fun _ => .pure (by simp)

theorem classExpression : Tidy source r.classExpression :=
  .construct (.bind (.many h.decorator) fun _ => .bind h.classRest fun _ => .pure (by simp))

end Rules.Sound

/-! ### Elements -/

theorem tagWord_tidy : Tidy source tagWord :=
  .bind skipGap_tidy fun _ => .bind remaining_tidy fun _ => .bind require_tidy fun _ =>
    .alone advance_tidy

theorem elementName_tidy : Tidy source elementName :=
  .build nofun (.bind tagWord_tidy fun _ =>
    .bind (.many (.bind (.orElse mark_tidy mark_tidy) fun _ => .alone tagWord_tidy)) fun _ =>
    .pure (by simp))

theorem attributeText_tidy {quote : Char} : Tidy source (attributeText quote) :=
  .build nofun (.bind peek_tidy fun _ => .bind require_tidy fun _ => .bind advance_tidy fun _ =>
    .bind (.optional (fragment_tidy nofun)) fun _ => .bind peek_tidy fun _ =>
    .bind require_tidy fun _ => .bind advance_tidy fun _ => .pure (by simp))

theorem reference_tidy : Tidy source reference := by
  unfold reference
  refine .bind_offset fun _ => .bind remaining_tidy fun _ => ?_
  split
  · exact .bind advance_tidy fun _ => .bind_offset fun _ => .branch nofun (by simp)
  · exact .failure

theorem elementText_tidy : Tidy source elementText := fragment_tidy nofun

namespace Rules.Sound
variable {r : Rules} (h : r.Sound source)
include h

theorem jsxExpression : Tidy source r.jsxExpression :=
  .build nofun (.bind char_tidy fun _ => .bind (.optional (.orElse h.spread h.sequence)) fun _ =>
    .bind char_tidy fun _ => .pure (by simp))

theorem jsxAttribute : Tidy source r.attribute := by
  unfold Rules.attribute
  refine .orElse (.build nofun (.bind (.build nofun ?name) fun _ => .bind (.optional ?value)
    fun _ => .pure (by simp))) h.jsxExpression
  case name =>
    exact .bind tagWord_tidy fun _ => .bind (.optional (.bind mark_tidy fun _ =>
      .alone tagWord_tidy)) fun _ => .pure (by simp)
  case value =>
    exact .bind char_tidy fun _ => .firstOf ⟨.alone attributeText_tidy, .alone attributeText_tidy,
      .alone h.jsxExpression, .alone h.element⟩

theorem elementRest {name : Parser (List Node)} (hname : Tidy source name) :
    Tidy source (r.elementRest name) :=
  .bind (.many (.firstOf ⟨elementText_tidy, reference_tidy, h.jsxExpression, h.element⟩)) fun _ =>
    .bind (.build nofun (.bind char_tidy fun _ => .bind char_tidy fun _ => .bind hname fun _ =>
      .bind char_tidy fun _ => .pure (by simp))) fun _ => .pure (by simp)

theorem jsxElement : Tidy source r.jsxElement := by
  unfold Rules.jsxElement
  refine .bind_here fun start => .bind char_tidy fun _ => .orElse ?blank ?element
  case blank =>
    exact .bind char_tidy fun _ => .bind (h.elementRest (.pure (by simp))) fun _ =>
      .bind_offset fun _ => .branch nofun (by simp)
  case element =>
    refine .bind elementName_tidy fun name => .bind (typed h.typeArguments) fun types =>
      .bind (.many h.jsxAttribute) fun attributes => .orElse ?closed ?opened
    case closed =>
      exact .bind char_tidy fun _ => .bind peek_tidy fun _ => .bind require_tidy fun _ =>
        .bind advance_tidy fun _ => .bind_offset fun _ => .branch nofun (by simp)
    case opened =>
      refine .bind char_tidy fun _ => .bind_offset fun stop => ?_
      refine .fold "jsx_opening_element" start stop (name :: types ++ attributes) (by simp) ?_
      exact .bind (h.elementRest (.bind elementName_tidy fun _ => .pure (by simp))) fun _ =>
        .bind_offset fun _ => .branch nofun (by simp)

end Rules.Sound
end PropShear.Grammar
