import PropShear.Grammar.Program
import PropShear.Proofs.Grammar.Statement

/-! The syntax tree of a text is tiled.

The rules of every depth are tidy, since each depth only uses the one below (`rules_sound`), so
whatever the parser accepts, the tree it gives has every node where it should be
(`parse?_tiled`). -/
namespace PropShear.Grammar

variable {source : List Char}

/-! ### Imports -/

theorem moduleSource_tidy : Tidy source moduleSource := .bind string_tidy fun _ => .pure (by simp)

theorem fromClause_tidy : Tidy source fromClause :=
  .bind keyword_tidy fun _ => .alone moduleSource_tidy

theorem listedName_tidy : Tidy source listedName := .orElse string_tidy (wordNode_tidy nofun)

namespace Rules.Sound
variable {r : Rules} (h : r.Sound source)
include h

theorem attributes : Tidy source r.attributes :=
  .construct (.bind (.orElse keyword_tidy keyword_tidy) fun _ => .bind h.object fun _ =>
    .pure (by simp))

omit h in
theorem specifier {kind : String} : Tidy source (r.specifier kind) := by
  unfold Rules.specifier
  have hplain : Tidy source (do
      let name ← listedName
      let renamed ← optional do
        keyword "as"
        listedName
      return name :: renamed.toList) :=
    .bind listedName_tidy fun _ => .bind (.optional (.bind keyword_tidy fun _ =>
      .alone listedName_tidy)) fun _ => .pure (by simp)
  refine .orElse (.construct ?untyped) (.construct ?typed)
  case untyped =>
    exact .bind hplain fun _ => .bind skipGap_tidy fun _ => .bind peek_tidy fun _ =>
      .bind require_tidy fun _ => .pure (by simp)
  case typed =>
    exact .bind require_tidy fun _ => .bind (.orElse keyword_tidy keyword_tidy) fun _ =>
      .bind hplain fun _ => .bind skipGap_tidy fun _ => .bind peek_tidy fun _ =>
      .bind require_tidy fun _ => .pure (by simp)

omit h in
theorem specifiers {list kind : String} : Tidy source (r.specifiers list kind) :=
  .construct (.bind char_tidy fun _ => .alone (denseList_tidy specifier))

omit h in
theorem importClause : Tidy source r.importClause := by
  unfold Rules.importClause
  have hall : Tidy source (construct "namespace_import" do
      mark "*"
      keyword "as"
      return [← bindingName r.dialect]) :=
    .construct (.bind mark_tidy fun _ => .bind keyword_tidy fun _ => .bind bindingName_tidy fun _ =>
      .pure (by simp))
  refine .construct (.firstOf ⟨.bind hall fun _ => .pure (by simp),
    .bind specifiers fun _ => .pure (by simp), ?_⟩)
  exact .bind bindingName_tidy fun _ => .bind (.optional (.bind mark_tidy fun _ =>
    .orElse (.alone hall) (.alone specifiers))) fun _ => .pure (by simp)

omit h in
theorem importRequireClause : Tidy source r.importRequireClause :=
  .build nofun (.bind require_tidy fun _ => .bind bindingName_tidy fun _ => .bind mark_tidy fun _ =>
    .bind keyword_tidy fun _ => .bind char_tidy fun _ => .bind moduleSource_tidy fun _ =>
    .bind char_tidy fun _ => .pure (by simp))

theorem importRest : Tidy source r.importRest := by
  unfold Rules.importRest
  refine .bind (.firstOf ⟨?clause, ?required, ?bare⟩) fun _ => .bind (.optional h.attributes)
    fun _ => .pure (by simp)
  case clause =>
    exact .bind importClause fun _ => .bind fromClause_tidy fun _ => .pure (by simp)
  case required => exact .bind importRequireClause fun _ => .pure (by simp)
  case bare => exact .bind moduleSource_tidy fun _ => .pure (by simp)

theorem importStatement : Tidy source r.importStatement := by
  refine .orElse (.build nofun ?_) (.build nofun ?_)
  · exact .bind keyword_tidy fun _ => .bind require_tidy fun _ =>
      .bind (.orElse keyword_tidy keyword_tidy) fun _ => .bind h.importRest fun _ =>
      .bind semicolon_tidy fun _ => .pure (by simp)
  · exact .bind keyword_tidy fun _ => .bind h.importRest fun _ => .bind semicolon_tidy fun _ =>
      .pure (by simp)

/-! ### Exports -/

theorem exportNames : Tidy source r.exportNames := by
  unfold Rules.exportNames
  refine .ite_bind (.optional (.bind keyword_tidy fun _ => .bind skipGap_tidy fun _ =>
    .bind peek_tidy fun _ => .alone require_tidy)) ?_
  refine .bind (.orElse ?everything ?listed) fun _ => .bind (.optional h.attributes) fun _ =>
    .bind semicolon_tidy fun _ => .pure (by simp)
  case everything =>
    exact .bind mark_tidy fun _ => .bind (.optional (.bind keyword_tidy fun _ =>
      .alone listedName_tidy)) fun _ => .bind fromClause_tidy fun _ => .pure (by simp)
  case listed =>
    exact .bind specifiers fun _ => .bind (.optional fromClause_tidy) fun _ => .pure (by simp)

theorem exportDefault : Tidy source r.exportDefault :=
  .bind keyword_tidy fun _ => .bind (.orElse h.declaration (.bind h.expression fun _ =>
    .bind semicolon_tidy fun _ => .pure (by simp))) fun _ => .pure (by simp)

theorem exportTyped : Tidy source r.exportTyped := by
  unfold Rules.exportTyped
  refine .bind require_tidy fun _ => .alone (.firstOf ⟨?assigned, ?global, ?imported⟩)
  case assigned =>
    exact .bind mark_tidy fun _ => .bind h.sequence fun _ => .bind semicolon_tidy fun _ =>
      .pure (by simp)
  case global =>
    exact .bind keyword_tidy fun _ => .bind keyword_tidy fun _ =>
      .bind (wordNode_tidy nofun) fun _ => .bind semicolon_tidy fun _ => .pure (by simp)
  case imported => exact .bind h.importStatement fun _ => .pure (by simp)

theorem exportStatement : Tidy source r.exportStatement :=
  .construct (.bind (.many h.decorator) fun _ => .bind keyword_tidy fun _ =>
    .bind (.firstOf ⟨h.exportNames, h.exportDefault, .bind h.declaration fun _ => .pure (by simp),
      h.exportTyped⟩) fun _ => .pure (by simp))

/-! ### Statements -/

theorem keywordStatement? {name : String} {p : Parser Node}
    (hp : r.keywordStatement? name = some p) : Tidy source p := by
  unfold Rules.keywordStatement? at hp
  split at hp
  case h_1 => cases hp; exact h.ifStatement
  case h_2 => cases hp; exact h.forStatement
  case h_3 => cases hp; exact h.whileStatement
  case h_4 => cases hp; exact h.doStatement
  case h_5 => cases hp; exact h.switchStatement
  case h_6 => cases hp; exact h.tryStatement
  case h_7 => cases hp; exact h.withStatement
  case h_8 => cases hp; exact h.returnStatement
  case h_9 => cases hp; exact h.throwStatement
  case h_10 => cases hp; exact jumpStatement
  case h_11 => cases hp; exact jumpStatement
  case h_12 => cases hp; exact debuggerStatement
  case h_13 => cases hp; exact h.exportStatement
  case h_14 => cases hp; exact h.variableStatement
  case h_15 => cases hp; exact h.declaration
  all_goals first | (cases hp; exact .failure) | cases hp

theorem labeledOrExpression : Tidy source r.labeledOrExpression :=
  .orElse h.labeledStatement h.expressionStatement

theorem wordStatement {name : String} : Tidy source (r.wordStatement name) := by
  have hdeclared : Tidy source (r.declaration <|> r.labeledOrExpression) :=
    .orElse h.declaration h.labeledOrExpression
  have hheaded : Tidy source (r.declaration <|> do
      require !(← r.namedHeadFollows)
      r.labeledOrExpression) :=
    .orElse h.declaration (.bind succeeds_tidy fun _ => .bind require_tidy fun _ =>
      .alone h.labeledOrExpression)
  unfold Rules.wordStatement
  split
  · exact .firstOf ⟨h.importStatement, .bind require_tidy fun _ => .alone importAlias,
      h.expressionStatement⟩
  iterate 2 exact .orElse h.usingStatement h.labeledOrExpression
  iterate 3 exact hheaded
  iterate 8 exact hdeclared
  · exact h.labeledOrExpression

theorem statementRule : Tidy source r.statementRule := by
  unfold Rules.statementRule
  refine .bind skipStatementGap_tidy fun _ => .bind peek_tidy fun _ => .alone ?_
  split
  · exact .orElse h.block (.bind objectFollows fun _ => .bind require_tidy fun _ =>
      .alone h.expressionStatement)
  · exact .construct (.bind mark_tidy fun _ => .pure (by simp))
  · exact .firstOf ⟨h.exportStatement, h.classDeclaration, h.expressionStatement⟩
  · refine .bind peekWord_tidy fun _ => .alone (.ite h.expressionStatement ?_)
    split
    · next p hp => exact h.keywordStatement? hp
    · exact h.wordStatement

end Rules.Sound

/-! ### Programs -/

/-- The rules of a depth use those of the depth below. -/
theorem rules_sound (d : Dialect) (n : Nat) : (rules d n).Sound source := by
  induction n with
  | zero =>
    exact ⟨.failure, .failure, .failure, .failure, .failure, .failure, .failure, .failure, .failure⟩
  | succ n ih =>
    exact ⟨ih.expressionRule, ih.binaryRule, ih.unaryRule, ih.operandRule, ih.primaryRule,
      ih.statementRule, ih.target, ih.fullType, ih.jsxElement⟩

theorem interpreterLine_tidy : Tidy source interpreterLine := by
  unfold interpreterLine
  refine .bind skipGap_tidy fun _ => .bind remaining_tidy fun _ => ?_
  split
  · exact .alone advance_tidy
  · exact .failure

theorem program_after {r : Rules} (h : r.Sound source) :
    After source [.bookmark 0] (program r) :=
  .bind (.optional interpreterLine_tidy) fun _ => .bind (.many h.statement) fun _ =>
    .bind skipStatementGap_tidy fun _ => .bind remaining_tidy fun _ => .bind require_tidy fun _ =>
    .bind_offset fun _ => .branch nofun (by simp)

/-- Every node of the tree that a text is read as lies where it should. -/
theorem parse?_tiled {d : Dialect} {root : Node} (h : parse? d source = some root) :
    root.Tiled source := by
  obtain ⟨⟨n, j⟩, hread, rfl⟩ := Option.map_eq_some_iff.mp h
  have hstart : Input.Of source ⟨source, 0⟩ := ⟨0, (Input.skip_zero _).symm⟩
  have hmark : Node.Row source 0 [.bookmark 0] 0 :=
    .singleton (Node.tiled_bookmark hstart.boundary) (Nat.le_refl 0) (Nat.le_refl 0)
  obtain ⟨-, -, hrow⟩ := program_after (rules_sound d _) 0 _ n j hstart hmark hread
  exact Node.tiled_bare.mp (hrow.mem (List.mem_singleton_self n.bare)).1

end PropShear.Grammar
