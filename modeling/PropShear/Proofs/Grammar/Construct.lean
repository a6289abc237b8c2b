import PropShear.Grammar.Element
import PropShear.Grammar.Member
import PropShear.Proofs.Grammar.Lexeme

/-! Patterns, types, members and elements are read in order, if the rules they refer to are. -/
namespace PropShear.Grammar
open Node (Row bookmark)

variable {source : List Char}

/-! ### Semicolons -/

instance : Plain Tail where

theorem lineComment_tidy : Tidy source lineComment := by
  unfold lineComment
  refine .bind remaining_tidy fun _ => ?_
  dsimp only
  split
  · exact .bind advance_tidy fun _ => .pure (by simp)
  · exact .failure

theorem trailingComments_tidy {d : Dialect} {tail : Tail} :
    Tidy source (trailingComments d tail) := by
  unfold trailingComments
  exact .ite (.bind (.many lineComment_tidy) fun _ => .pure (by simp)) <|
    .ite (.bind (.optional (.bind (.many lineComment_tidy) fun _ => .alone require_tidy))
      fun _ => .pure (by simp)) (.pure (by simp))

theorem semicolon_tidy {d : Dialect} {tail : Tail} : Tidy source (semicolon d tail) := by
  unfold semicolon
  exact .bind remaining_tidy fun _ => .ite (.alone trailingComments_tidy)
    (.alone mark_tidy)

theorem isOver_tidy {c : Context} {d : Dialect} : Tidy source (c.isOver d) :=
  .bind remaining_tidy fun _ => .pure (by simp)

/-! ### Names -/

theorem identifier_tidy {d : Dialect} : Tidy source (identifier d) :=
  .build nofun (.bind word_tidy fun _ => .bind require_tidy fun _ => .pure (by simp))

theorem bindingName_tidy {d : Dialect} : Tidy source (bindingName d) :=
  .build nofun (.bind word_tidy fun _ => .bind require_tidy fun _ => .pure (by simp))

theorem propertyName_tidy : Tidy source propertyName := wordNode_tidy nofun

theorem privateName_tidy : Tidy source privateName :=
  .build nofun (.bind peek_tidy fun _ => .bind require_tidy fun _ =>
    .bind advance_tidy fun _ => .bind remaining_tidy fun _ => .bind require_tidy fun _ =>
    .bind advance_tidy fun _ => .pure (by simp))

theorem wordValue_tidy {name : String} : Tidy source (wordValue name) :=
  .build nofun (.bind keyword_tidy fun _ => .pure (by simp))

theorem modifier_tidy {words : List String} : Tidy source (modifier words) :=
  .bind word_tidy fun _ => .bind require_tidy fun _ => .bind skipGap_tidy fun _ =>
    .bind peek_tidy fun _ => .bind require_tidy fun _ => .pure (by simp)

theorem templateText_tidy : Tidy source templateText :=
  .bind_offset fun _ => .bind remaining_tidy fun _ => .bind require_tidy fun _ =>
    .bind advance_tidy fun _ => .bind_offset fun _ => .branch nofun (by simp)

theorem memberAccess_after {n : Node} : After source (nodes n) (memberAccess n) :=
  .bind mark_tidy fun _ => .bind (.orElse propertyName_tidy privateName_tidy) fun _ =>
    .buildFrom nofun (by simp) (by simp)

/-! ### Rules -/

/-- Every rule of the record is tidy. -/
structure Rules.Sound (source : List Char) (r : Rules) : Prop where
  expression : ∀ {c}, Tidy source (r.expression c)
  binary : ∀ {c least}, Tidy source (r.binary c least)
  unary : ∀ {c}, Tidy source (r.unary c)
  operand : ∀ {c}, Tidy source (r.operand c)
  primary : ∀ {c}, Tidy source (r.primary c)
  statement : Tidy source r.statement
  pattern : Tidy source r.pattern
  type : Tidy source r.type
  element : Tidy source r.element

namespace Rules.Sound
variable {r : Rules} (h : r.Sound source)
include h

theorem sequence {c : Context} : Tidy source (r.sequence c) := by
  unfold Rules.sequence
  exact .bind h.expression fun _ =>
    .bind (.many (.bind mark_tidy fun _ => .alone h.expression)) fun _ =>
    .ite (.pure (by simp)) (.buildFrom nofun (by simp) (by simp))

theorem parenthesized : Tidy source r.parenthesized :=
  .build nofun (.bind char_tidy fun _ => .bind h.sequence fun _ =>
    .bind char_tidy fun _ => .pure (by simp))

theorem block : Tidy source r.block :=
  .build nofun (.bind char_tidy fun _ => .bind (.many h.statement) fun _ =>
    .bind char_tidy fun _ => .pure (by simp))

theorem spread : Tidy source r.spread :=
  .build nofun (.bind mark_tidy fun _ => .bind h.expression fun _ => .pure (by simp))

theorem arguments : Tidy source r.arguments :=
  .build nofun (.bind char_tidy fun _ =>
    .alone (sparseList_tidy (.orElse h.spread h.expression)))

theorem computedName : Tidy source r.computedName :=
  .build nofun (.bind char_tidy fun _ => .bind h.sequence fun _ =>
    .bind char_tidy fun _ => .pure (by simp))

theorem memberName : Tidy source r.memberName :=
  .firstOf ⟨propertyName_tidy, privateName_tidy, string_tidy, number_tidy, h.computedName⟩

theorem initializer {c : Context} : Tidy source (r.initializer c) :=
  .bind mark_tidy fun _ => .alone h.expression

theorem substitution : Tidy source r.substitution := by
  unfold Rules.substitution
  refine .bind_offset fun _ => .bind remaining_tidy fun _ => ?_
  split
  · exact .bind advance_tidy fun _ => .bind h.sequence fun _ => .bind char_tidy fun _ =>
      .bind_offset fun _ => .branch nofun (by simp)
  · exact .failure

theorem template : Tidy source r.template :=
  .build nofun (.bind peek_tidy fun _ => .bind require_tidy fun _ =>
    .bind advance_tidy fun _ =>
    .bind (.many (.firstOf ⟨templateText_tidy, escapeSequence_tidy, h.substitution⟩)) fun _ =>
    .bind peek_tidy fun _ => .bind require_tidy fun _ => .bind advance_tidy fun _ =>
    .pure (by simp))

/-! ### Patterns -/

theorem withDefault {kind : String} {target : Node} :
    After source (nodes target) (r.withDefault (.other kind) target) := by
  unfold Rules.withDefault
  refine .bind (.optional h.initializer) fun value => ?_
  cases value with
  | none => exact .pure (by simp)
  | some value => exact .buildFrom nofun (by simp) (by simp)

theorem restPattern : Tidy source r.restPattern :=
  .build nofun (.bind mark_tidy fun _ => .bind h.pattern fun _ => .pure (by simp))

theorem patternElement : Tidy source r.patternElement :=
  .orElse h.restPattern (.bind h.pattern fun _ => h.withDefault)

theorem pairPattern : Tidy source r.pairPattern :=
  .build nofun (.bind h.memberName fun _ => .bind mark_tidy fun _ =>
    .bind h.patternElement fun _ => .pure (by simp))

theorem shorthandPattern : Tidy source r.shorthandPattern := by
  unfold Rules.shorthandPattern
  refine .bind bindingName_tidy fun name => ?_
  exact h.withDefault.of_row fun _ _ hrow => Row.leaf hrow nofun

theorem objectPattern : Tidy source r.objectPattern :=
  .build nofun (.bind char_tidy fun _ =>
    .alone (sparseList_tidy (.firstOf ⟨h.restPattern, h.pairPattern, h.shorthandPattern⟩)))

theorem arrayPattern : Tidy source r.arrayPattern :=
  .build nofun (.bind char_tidy fun _ => .alone (sparseList_tidy h.patternElement))

theorem subscript {n : Node} : After source (nodes n) (r.subscript n) :=
  .bind char_tidy fun _ => .bind h.sequence fun _ => .bind char_tidy fun _ =>
    .buildFrom nofun (by simp) (by simp)

theorem target : Tidy source r.target := by
  unfold Rules.target
  refine .firstOf ⟨h.objectPattern, h.arrayPattern, ?_⟩
  refine .bind (.firstOf ⟨wordValue_tidy, wordValue_tidy, identifier_tidy⟩) fun first => ?_
  refine .absorb (.extended (by simp) fun n => .orElse memberAccess_after h.subscript)
    fun n => ?_
  exact .bind require_tidy fun _ => .pure (by simp)

theorem binding : Tidy source r.binding :=
  .firstOf ⟨h.objectPattern, h.arrayPattern, bindingName_tidy⟩

/-! ### Types -/

theorem typeArguments : Tidy source r.typeArguments :=
  .construct (.bind char_tidy fun _ => .bind h.type fun _ =>
    .bind (.many (.bind char_tidy fun _ => .alone h.type)) fun _ =>
    .bind (.optional char_tidy) fun _ => .bind char_tidy fun _ => .pure (by simp))

theorem typeParameter : Tidy source r.typeParameter :=
  .construct (.bind (.many modifier_tidy) fun _ => .bind word_tidy fun _ =>
    .bind (.optional (.bind (.orElse keyword_tidy mark_tidy) fun _ => .alone h.type))
      fun _ =>
    .bind (.optional (.bind mark_tidy fun _ => .alone h.type)) fun _ => .pure (by simp))

theorem typeParameters : Tidy source r.typeParameters :=
  .construct (.bind char_tidy fun _ => .bind h.typeParameter fun _ =>
    .bind (.many (.bind char_tidy fun _ => .alone h.typeParameter)) fun _ =>
    .bind (.optional char_tidy) fun _ => .bind char_tidy fun _ => .pure (by simp))

omit h in
theorem typed {p : Parser Node} (hp : Tidy source p) : Tidy source (r.typed p) :=
  .ite (.bind (.optional hp) fun _ => .pure (by simp)) (.pure (by simp))

theorem typeAnnotation : Tidy source r.typeAnnotation :=
  .construct (.bind mark_tidy fun _ => .bind h.type fun _ => .pure (by simp))

theorem decorator : Tidy source r.decorator := by
  refine .construct (.bind char_tidy fun _ =>
    .bind (.orElse h.parenthesized bindingName_tidy) fun first => ?_)
  refine .absorb (.extended (by simp) fun n => .bind mark_tidy fun _ =>
    .bind propertyName_tidy fun _ => .buildFrom nofun (by simp) (by simp)) fun callee => ?_
  refine .bind (.optional (.bind require_tidy fun _ => .bind h.typeArguments fun _ =>
    .bind comes_tidy fun _ => .bind require_tidy fun _ => .pure (by simp))) fun types => ?_
  refine .bind (.optional h.arguments) fun arguments => ?_
  cases arguments with
  | none => exact .pure (by simp)
  | some a => exact .consume (.buildFrom nofun (by simp) (by simp)) fun _ => .pure (by simp)

omit h in
theorem parameterModifier : Tidy source parameterModifier :=
  .bind word_tidy fun _ => .bind require_tidy fun _ => .bind skipGap_tidy fun _ =>
    .bind peek_tidy fun _ => .alone require_tidy

theorem parameter : Tidy source r.parameter := by
  unfold Rules.parameter
  refine .ite (.construct ?_) (.orElse h.restPattern (.bind h.binding fun _ => h.withDefault))
  exact .bind (.many h.decorator) fun _ => .bind (.many parameterModifier) fun _ =>
    .bind (.orElse h.restPattern h.binding) fun _ => .bind (.optional mark_tidy) fun _ =>
    .bind (.optional h.typeAnnotation) fun _ => .bind (.optional h.initializer) fun _ =>
    .pure (by simp)

theorem parameters : Tidy source r.parameters :=
  .construct (.bind char_tidy fun _ => .alone (denseList_tidy h.parameter))

theorem predicate : Tidy source r.predicate := by
  unfold Rules.predicate
  refine .construct (.bind (.optional (.bind keyword_tidy fun _ => .bind skipGap_tidy fun _ =>
    .bind peek_tidy fun _ => .alone require_tidy)) fun _ => .bind word_tidy fun _ =>
    .bind require_tidy fun _ => .ite ?_ ?_)
  · exact .bind (.optional (.bind keyword_tidy fun _ => .alone h.type)) fun _ => .pure (by simp)
  · exact .bind keyword_tidy fun _ => .bind h.type fun _ => .pure (by simp)

theorem resultType : Tidy source r.resultType :=
  .construct (.bind mark_tidy fun _ => .bind (.orElse h.predicate h.type) fun _ => .pure (by simp))

theorem signature : Tidy source r.signature :=
  .bind (typed h.typeParameters) fun _ => .bind h.parameters fun _ =>
    .bind (typed h.resultType) fun _ => .pure (by simp)

theorem indexSignature : Tidy source r.indexSignature := by
  unfold Rules.indexSignature
  refine .construct (.bind (.optional (.bind (.optional (.orElse char_tidy char_tidy)) fun _ =>
    .alone keyword_tidy)) fun _ => .bind char_tidy fun _ => .bind word_tidy fun _ =>
    .bind (.orElse ?_ ?_) fun _ => .bind char_tidy fun _ =>
    .bind (.optional (.bind (.optional (.orElse char_tidy char_tidy)) fun _ => .alone char_tidy))
      fun _ => .bind (.optional h.resultType) fun _ => .pure (by simp))
  · exact .bind mark_tidy fun _ => .bind h.type fun _ => .pure (by simp)
  · exact .bind keyword_tidy fun _ => .bind h.type fun _ =>
      .bind (.optional (.bind keyword_tidy fun _ => .alone h.type)) fun _ => .pure (by simp)

theorem typeMember : Tidy source r.typeMember := by
  unfold Rules.typeMember
  refine .firstOf ⟨.construct ?_, .construct h.signature, h.indexSignature, .construct ?_,
    .construct ?_⟩
  · exact .bind keyword_tidy fun _ => .alone h.signature
  · exact .bind (.many modifier_tidy) fun _ => .bind (.optional char_tidy) fun _ =>
      .bind h.memberName fun _ => .bind (.optional mark_tidy) fun _ =>
      .bind h.signature fun _ => .pure (by simp)
  · exact .bind (.many modifier_tidy) fun _ => .bind h.memberName fun _ =>
      .bind (.optional mark_tidy) fun _ => .bind (.optional h.typeAnnotation) fun _ =>
      .pure (by simp)

theorem typeMembers : Tidy source r.typeMembers := by
  unfold Rules.typeMembers
  have hseparator : Tidy source (mark ";" <|> mark ",") := .orElse mark_tidy mark_tidy
  refine .bind char_tidy fun _ => .bind (.optional char_tidy) fun _ =>
    .bind (.many hseparator) fun _ => .bind (.many ?_) fun _ => .bind (.optional char_tidy) fun _ =>
    .bind char_tidy fun _ => .pure (by simp)
  refine .bind h.typeMember fun member => .bind remaining_tidy fun _ => ?_
  have hrest : After source [member.bare] (do
      let _ ← many (mark ";" <|> mark ",")
      return member) :=
    .bind (.many hseparator) fun _ => .pure (by simp)
  exact .ite (hrest.weaken (by simp)) (.bind skipGap_tidy fun _ => .bind peek_tidy fun _ =>
    .bind peek_tidy fun _ => .ite (hrest.weaken (by simp))
      (.bind hseparator fun _ => hrest.weaken (by simp)))

theorem objectType : Tidy source r.objectType := .construct h.typeMembers

omit h in
theorem dottedName : Tidy source dottedName :=
  .construct (.bind word_tidy fun _ => .bind (.many (.bind mark_tidy fun _ => .alone word_tidy))
    fun _ => .pure (by simp))

theorem queriedValue : Tidy source r.queriedValue := by
  unfold Rules.queriedValue
  refine .bind (.orElse (.build nofun (.bind keyword_tidy fun _ => .pure (by simp)))
    (wordNode_tidy nofun)) fun name => ?_
  refine .absorb (.extended (List.Sublist.refl _) fun n => .firstOf ⟨?_, ?_, ?_⟩) fun value => ?_
  · exact .bind (.orElse mark_tidy mark_tidy) fun _ =>
      .bind (.orElse propertyName_tidy privateName_tidy) fun _ =>
      .buildFrom nofun (by simp) (by simp)
  · exact .bind char_tidy fun _ => .bind (.orElse string_tidy number_tidy) fun _ =>
      .bind char_tidy fun _ => .buildFrom nofun (by simp) (by simp)
  · exact .bind h.arguments fun _ => .buildFrom nofun (by simp) (by simp)
  · refine .bind (.optional h.typeArguments) fun types => ?_
    cases types with
    | none => exact .pure (by simp)
    | some t => exact .buildFrom nofun (by simp) (by simp)

theorem typeQuery : Tidy source r.typeQuery :=
  .construct (.bind keyword_tidy fun _ => .bind h.queriedValue fun _ => .pure (by simp))

theorem tupleItem : Tidy source r.tupleItem := by
  unfold Rules.tupleItem
  refine .firstOf ⟨.construct ?_, .construct ?_, ?_⟩
  · exact .bind (.optional mark_tidy) fun _ => .bind word_tidy fun _ =>
      .bind (.optional mark_tidy) fun _ => .bind mark_tidy fun _ => .bind h.type fun _ =>
      .pure (by simp)
  · exact .bind mark_tidy fun _ => .bind h.type fun _ => .pure (by simp)
  · refine .bind h.type fun _ => .bind (.optional mark_tidy) fun optional => ?_
    cases optional with
    | none => exact .pure (by simp)
    | some _ => exact .buildFrom nofun (by simp) (by simp)

theorem functionType : Tidy source r.functionType :=
  .construct (.bind (.optional (.bind (.optional keyword_tidy) fun _ => .alone keyword_tidy))
    fun _ => .bind (.optional h.typeParameters) fun _ => .bind h.parameters fun _ =>
    .bind mark_tidy fun _ => .bind (.orElse h.predicate h.type) fun _ => .pure (by simp))

theorem templateType : Tidy source r.templateType := by
  refine .construct (.bind peek_tidy fun _ => .bind require_tidy fun _ =>
    .bind advance_tidy fun _ =>
    .bind (.many (.firstOf ⟨templateText_tidy, escapeSequence_tidy, ?_⟩)) fun _ =>
    .bind peek_tidy fun _ => .bind require_tidy fun _ => .bind advance_tidy fun _ =>
    .pure (by simp))
  refine .bind_offset fun _ => .bind remaining_tidy fun _ => ?_
  split
  · exact .bind advance_tidy fun _ => .bind h.type fun _ => .bind char_tidy fun _ =>
      .bind_offset fun _ => .branch nofun (by simp)
  · exact .failure

theorem namedType : Tidy source r.namedType := by
  unfold Rules.namedType
  refine .bind dottedName fun _ => .bind (.optional h.typeArguments) fun types => ?_
  cases types with
  | none => exact .pure (by simp)
  | some a => exact .buildFrom nofun (by simp) (by simp)

theorem primaryType : Tidy source r.primaryType := by
  unfold Rules.primaryType
  refine .firstOf ⟨h.objectType, .construct ?tuple, .construct ?parenthesized, .construct ?literal,
    h.templateType, h.typeQuery, .construct ?unique, .construct ?inferred, .construct ?imported,
    .construct ?anything, h.namedType⟩
  case tuple => exact .bind char_tidy fun _ => .alone (sparseList_tidy h.tupleItem)
  case parenthesized =>
    exact .bind char_tidy fun _ => .bind h.type fun _ => .bind char_tidy fun _ => .pure (by simp)
  case literal =>
    exact .bind (.firstOf ⟨string_tidy, number_tidy, .bind (.orElse char_tidy char_tidy) fun _ =>
      .alone number_tidy⟩) fun _ => .pure (by simp)
  case unique => exact .bind keyword_tidy fun _ => .bind keyword_tidy fun _ => .pure (by simp)
  case inferred =>
    exact .bind keyword_tidy fun _ => .bind word_tidy fun _ =>
      .bind (.optional (.bind keyword_tidy fun _ => .bind h.type fun _ =>
        .bind skipGap_tidy fun _ => .bind peek_tidy fun _ => .bind require_tidy fun _ =>
        .pure (by simp))) fun _ => .pure (by simp)
  case imported =>
    exact .bind keyword_tidy fun _ => .bind h.arguments fun _ =>
      .bind (.many (.bind mark_tidy fun _ => .alone (wordNode_tidy nofun))) fun _ =>
      .bind (.optional h.typeArguments) fun _ => .pure (by simp)
  case anything => exact .bind char_tidy fun _ => .pure (by simp)

theorem postfixType : Tidy source r.postfixType :=
  .bind h.primaryType fun _ => .extended (by simp) fun _ => .bind remaining_tidy fun _ =>
    .bind require_tidy fun _ => .bind char_tidy fun _ => .bind (.optional h.type) fun _ =>
    .bind char_tidy fun _ => .buildFrom nofun (by simp) (by simp)

omit h in
theorem typeOperator : Tidy source typeOperator :=
  .bind (.orElse keyword_tidy (.orElse keyword_tidy char_tidy)) fun _ =>
    .bind skipGap_tidy fun _ => .bind peek_tidy fun _ => .alone require_tidy

theorem operatorType : Tidy source r.operatorType :=
  .firstOf ⟨h.functionType, .construct (.bind typeOperator fun _ => .bind (.many typeOperator)
    fun _ => .bind h.postfixType fun _ => .pure (by simp)), h.postfixType⟩

theorem unionType : Tidy source r.unionType := by
  unfold Rules.unionType
  have hoperator : Tidy source (mark "|" <|> mark "&") := .orElse mark_tidy mark_tidy
  exact .bind (.orElse (.construct (.bind hoperator fun _ => .bind h.operatorType fun _ =>
      .pure (by simp))) h.operatorType) fun _ =>
    .bind (.many (.bind hoperator fun _ => .alone h.operatorType)) fun _ =>
    .ite (.pure (by simp)) (.buildFrom nofun (by simp) (by simp))

theorem fullType : Tidy source r.fullType :=
  .bind h.unionType fun _ => .orElse (.bind remaining_tidy fun _ => .bind require_tidy fun _ =>
    .bind keyword_tidy fun _ => .bind h.unionType fun _ => .bind mark_tidy fun _ =>
    .bind h.type fun _ => .bind mark_tidy fun _ => .bind h.type fun _ =>
    .buildFrom nofun (by simp) (by simp)) (.pure (by simp))

end Rules.Sound
end PropShear.Grammar
