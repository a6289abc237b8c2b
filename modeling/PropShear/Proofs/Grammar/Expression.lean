import PropShear.Grammar.Expression
import PropShear.Proofs.Grammar.Member

/-! Expressions are read in order. -/
namespace PropShear.Grammar

variable {source : List Char}

/-! ### Values -/

theorem assignmentFollows_tidy : Tidy source assignmentFollows := comes_tidy

/-- Both readings of an object or array start from the same place, and one of them is taken. -/
theorem literalOrPattern_tidy {literal pattern : Parser Node} (hliteral : Tidy source literal)
    (hpattern : Tidy source pattern) : Tidy source (literalOrPattern literal pattern) := by
  intro first i n k hi hns h
  have hassigned : Tidy source (do
      let n ← pattern
      require (← assignmentFollows)
      return n) :=
    .bind hpattern fun _ => .bind assignmentFollows_tidy fun _ => .bind require_tidy fun _ =>
      .pure (by simp)
  unfold literalOrPattern at h
  split at h
  · next m j hm =>
    split at h
    · rcases Option.or_eq_some_iff.mp h with hn | ⟨-, hn⟩
      · exact hpattern first i n k hi hns hn
      · exact hliteral first i n k hi hns (hm.trans hn)
    · exact hliteral first i n k hi hns (hm.trans h)
  · exact hassigned first i n k hi hns h

theorem importValue_tidy : Tidy source importValue :=
  .bind wordValue_tidy fun _ => .orElse
    (.bind mark_tidy fun _ => .bind word_tidy fun _ =>
      .buildFrom_of nofun (List.singleton_sublist.mpr (by simp)) (List.nil_sublist _))
    (.bind comes_tidy fun _ => .bind require_tidy fun _ => .pure (by simp))

theorem privateCheck_tidy : Tidy source privateCheck :=
  .bind privateName_tidy fun _ => .bind peekWord_tidy fun _ => .bind require_tidy fun _ =>
    .pure (by simp)

theorem binaryOperator_tidy {c : Context} : Tidy source (binaryOperator c) := by
  unfold binaryOperator
  refine .bind peekWord_tidy fun _ => .ite (.bind peekMark_tidy fun _ => ?_)
    (.bind require_tidy fun _ => ?_)
  · split
    · exact .bind mark_tidy fun _ => .pure (by simp)
    · exact .failure
  · split
    · exact .bind keyword_tidy fun _ => .pure (by simp)
    · exact .failure

namespace Rules.Sound
variable {r : Rules} (h : r.Sound source)
include h

/-! ### Functions -/

theorem functionExpression : Tidy source r.functionExpression :=
  .construct (.bind (.optional keyword_tidy) fun _ => .bind keyword_tidy fun _ =>
    .bind (.optional char_tidy) fun _ => .bind (.optional bindingName_tidy) fun _ =>
    .bind h.signature fun _ => .bind h.block fun _ => .pure (by simp))

omit h in
theorem objectFollows : Tidy source r.objectFollows := succeeds_tidy

theorem arrowBody {c : Context} : Tidy source (r.arrowBody c) :=
  .bind skipGap_tidy fun _ => .bind peek_tidy fun _ => .ite
    (.orElse (.alone h.block) (.bind objectFollows fun _ => .bind require_tidy fun _ =>
      .alone h.expression))
    (.alone h.expression)

theorem arrow {c : Context} : Tidy source (r.arrow c) := by
  unfold Rules.arrow
  have hsingle : Tidy source (do
      let name ← bindingName r.dialect
      return [name]) :=
    .bind bindingName_tidy fun _ => .pure (by simp)
  have hseveral : Tidy source (do
      let typeParameters ← r.typed r.typeParameters
      let parameters ← r.parameters
      let result ← if c.allowResultType then r.typed r.resultType else pure []
      return typeParameters ++ [parameters] ++ result) :=
    .bind (typed h.typeParameters) fun _ => .bind h.parameters fun _ =>
      .ite (.bind (typed h.resultType) fun _ => .pure (by simp))
        (.bind (.pure (List.nil_sublist [])) fun _ => .pure (by simp))
  have headed : ∀ {head : Parser (List Node)}, Tidy source head →
      Tidy source (construct "arrow_function" do
        let parameters ← head
        mark "=>"
        return parameters ++ [← r.arrowBody c]) := fun hhead =>
    .construct (.bind hhead fun _ => .bind mark_tidy fun _ => .bind h.arrowBody fun _ =>
      .pure (by simp))
  exact .firstOf ⟨headed (.bind keyword_tidy fun _ => .orElse (.alone hsingle) (.alone hseveral)),
    headed hsingle, headed hseveral⟩

/-! ### Calls and accesses -/

theorem array : Tidy source r.array :=
  .construct (.bind char_tidy fun _ => .alone (sparseList_tidy (.orElse h.spread h.expression)))

theorem call {n : Node} : After source (nodes n) (r.call n) :=
  .bind (.orElse h.arguments h.template) fun _ => .buildFrom nofun (by simp) (by simp)

theorem typedCall {n : Node} : After source (nodes n) (r.typedCall n) :=
  .bind require_tidy fun _ => .bind h.typeArguments fun _ =>
    .bind (.orElse h.arguments h.template) fun _ => .buildFrom nofun (by simp) (by simp)

theorem instantiation {n : Node} : After source (nodes n) (r.instantiation n) :=
  .bind require_tidy fun _ => .bind h.typeArguments fun _ => .bind peekMark_tidy fun _ =>
    .bind require_tidy fun _ => .buildFrom nofun (by simp) (by simp)

theorem optionalChain {n : Node} : After source (nodes n) (r.optionalChain n) := by
  refine .bind mark_tidy fun _ =>
    .weaken (.firstOf ⟨h.call, h.subscript, h.typedCall, ?_⟩) (by simp)
  exact .bind (.orElse propertyName_tidy privateName_tidy) fun _ =>
    .buildFrom nofun (by simp) (by simp)

theorem construction : Tidy source r.construction := by
  unfold Rules.construction
  refine .bind_here fun _ => .bind keyword_tidy fun _ => .orElse ?property ?creation
  case property =>
    exact .bind mark_tidy fun _ => .bind keyword_tidy fun _ => .bind_offset fun _ =>
      .branch nofun (by simp)
  case creation =>
    refine .bind h.primary fun value => .absorb (.extended (List.Sublist.refl _) fun n =>
      .firstOf ⟨memberAccess_after, h.subscript⟩) fun _ => ?_
    exact .bind (typed h.typeArguments) fun _ => .bind (.optional h.arguments) fun _ =>
      .bind_offset fun _ => .branch nofun (by simp)

theorem wordPrimary {c : Context} {name : String} : Tidy source (r.wordPrimary c name) := by
  unfold Rules.wordPrimary
  split
  · exact h.functionExpression
  · exact h.classExpression
  · exact h.construction
  · exact importValue_tidy
  iterate 5 exact wordValue_tidy
  · exact .firstOf ⟨h.functionExpression, h.arrow, identifier_tidy⟩
  · exact .orElse h.arrow identifier_tidy

theorem primaryRule {c : Context} : Tidy source (r.primaryRule c) := by
  unfold Rules.primaryRule
  refine .bind skipGap_tidy fun _ => .bind peek_tidy fun _ => .alone ?_
  split
  · exact .orElse h.arrow h.parenthesized
  · exact literalOrPattern_tidy h.object h.objectPattern
  · exact literalOrPattern_tidy h.array h.arrayPattern
  · exact string_tidy
  · exact string_tidy
  · exact regex_tidy
  · exact privateCheck_tidy
  · exact h.classExpression
  · exact .orElse (.bind require_tidy fun _ => .alone h.arrow)
      (.bind require_tidy fun _ => .alone h.element)
  · exact number_tidy
  · exact .ite number_tidy (.ite h.template (.bind peekWord_tidy fun _ => .alone h.wordPrimary))

theorem suffix {c : Context} {n : Node} : After source (nodes n) (r.suffix c n) := by
  unfold Rules.suffix
  refine .bind isOver_tidy fun _ => .bind require_tidy fun _ => .bind skipGap_tidy fun _ =>
    .bind peek_tidy fun _ => .weaken ?_ (List.Sublist.refl (nodes n) |>.trans (by simp))
  split
  · exact memberAccess_after
  · exact h.optionalChain
  · exact h.subscript
  · exact h.call
  · exact .orElse h.typedCall h.instantiation
  · exact .bind require_tidy fun _ => .bind mark_tidy fun _ => .buildFrom nofun (by simp) (by simp)
  · exact .bind require_tidy fun _ => h.call.weaken (by simp)

theorem operandRule {c : Context} : Tidy source (r.operandRule c) :=
  .bind h.primaryRule fun _ => .extended (by simp) fun _ => h.suffix

/-! ### Operators -/

theorem assignment {c : Context} {target : Node} :
    After source (nodes target) (r.assignment c target) :=
  .bind require_tidy fun _ => .orElse
    (.bind mark_tidy fun _ => .bind h.expression fun _ => .buildFrom nofun (by simp) (by simp))
    (.bind peekMark_tidy fun _ => .bind require_tidy fun _ => .bind mark_tidy fun _ =>
      .bind h.expression fun _ => .buildFrom nofun (by simp) (by simp))

theorem assigned {c : Context} : Tidy source (r.assigned c) :=
  .bind h.operandRule fun _ => .orElse h.assignment (.extended (by simp) fun _ =>
    .bind isOver_tidy fun _ => .bind require_tidy fun _ =>
    .bind (.orElse mark_tidy mark_tidy) fun _ => .buildFrom nofun (by simp) (by simp))

theorem yieldExpression {c : Context} : Tidy source (r.yieldExpression c) := by
  refine .construct (.bind keyword_tidy fun _ => .bind isOver_tidy fun _ =>
    .ite (.pure (by simp)) (.orElse ?_ ?_))
  · exact .bind mark_tidy fun _ => .bind h.expression fun _ => .pure (by simp)
  · exact .bind (.optional h.expression) fun _ => .pure (by simp)

theorem typeAssertion {c : Context} : Tidy source (r.typeAssertion c) :=
  .construct (.bind require_tidy fun _ => .bind h.typeArguments fun _ => .bind h.unary fun _ =>
    .pure (by simp))

theorem unaryRule {c : Context} : Tidy source (r.unaryRule c) := by
  unfold Rules.unaryRule
  refine .firstOf ⟨.construct ?operator, .construct ?update, .construct ?awaited,
    h.yieldExpression, h.assigned, h.typeAssertion⟩
  case operator =>
    exact .bind peekMark_tidy fun _ => .ite
      (.bind mark_tidy fun _ => .bind h.unary fun _ => .pure (by simp))
      (.bind word_tidy fun _ => .bind require_tidy fun _ => .bind h.unary fun _ => .pure (by simp))
  case update =>
    exact .bind (.orElse mark_tidy mark_tidy) fun _ => .bind h.unary fun _ => .pure (by simp)
  case awaited => exact .bind keyword_tidy fun _ => .bind h.unary fun _ => .pure (by simp)

theorem binaryStep {c : Context} {least : Nat} {left : Node} :
    After source (nodes left) (r.binaryStep c least left) := by
  refine .bind isOver_tidy fun _ => .bind require_tidy fun _ => .orElse ?_ ?_
  · exact .bind binaryOperator_tidy fun _ => .bind require_tidy fun _ => .bind h.binary fun _ =>
      .buildFrom nofun (by simp) (by simp)
  · exact .bind require_tidy fun _ => .bind word_tidy fun _ => .bind require_tidy fun _ =>
      .bind h.type fun _ => .buildFrom nofun (by simp) (by simp)

theorem binaryRule {c : Context} {least : Nat} : Tidy source (r.binaryRule c least) :=
  .bind h.unaryRule fun _ => .extended (by simp) fun _ => h.binaryStep

theorem consequence : Tidy source r.consequence := by
  unfold Rules.consequence
  have upToColon : ∀ {c : Context}, Tidy source (do
      let n ← r.expression c
      mark ":"
      return n) :=
    .bind h.expression fun _ => .bind mark_tidy fun _ => .pure (by simp)
  exact .orElse upToColon (.bind require_tidy fun _ => .alone upToColon)

theorem expressionRule {c : Context} : Tidy source (r.expressionRule c) := by
  refine .bind h.binaryRule fun _ => .orElse ?_ (.pure (by simp))
  exact .bind isOver_tidy fun _ => .bind require_tidy fun _ => .bind mark_tidy fun _ =>
    .bind h.consequence fun _ => .bind h.expression fun _ => .buildFrom nofun (by simp) (by simp)

end Rules.Sound
end PropShear.Grammar
