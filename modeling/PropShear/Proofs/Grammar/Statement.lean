import PropShear.Grammar.Module
import PropShear.Proofs.Grammar.Expression

/-! Statements, declarations, imports and exports are read in order.

A declarator is never empty: what it binds starts with a name or a bracket (`binding_solid`). -/
namespace PropShear.Grammar

variable {source : List Char} {α β : Type}

/-! ### What results ensure -/

/-- Every result of the parser has a property. -/
def Ensures (source : List Char) (p : Parser α) (P : α → Prop) : Prop :=
  ∀ i a j, i.Of source → p i = some (a, j) → P a

namespace Ensures
variable {p q : Parser α} {P : α → Prop}

theorem pure {a : α} (ha : P a) : Ensures source (pure a) P := by
  intro i b j _ h
  cases h
  exact ha

theorem failure : Ensures source (failure : Parser α) P := nofun

theorem bind [HasNodes α] {Q : β → Prop} {f : α → Parser β} (hp : Tidy source p)
    (hf : ∀ a, Ensures source (f a) Q) : Ensures source (p >>= f) Q := by
  intro i b k hi h
  obtain ⟨a, j, hpa, hfb⟩ := bind_eq_some h
  obtain ⟨hj, -, -⟩ := hp i.offset i a j hi (Nat.le_refl _) hpa
  exact hf a j b k hj hfb

theorem orElse (hp : Ensures source p P) (hq : Ensures source q P) :
    Ensures source (p <|> q) P := by
  intro i a j hi h
  rcases orElse_eq_some h with h | h
  · exact hp i a j hi h
  · exact hq i a j hi h

end Ensures

/-- A step whose result has a property that the later steps need. -/
theorem After.bind_ensured [HasNodes α] [HasNodes β] {ns : List Node} {p : Parser α}
    {P : α → Prop} {f : α → Parser β} (hp : Tidy source p) (hP : Ensures source p P)
    (hf : ∀ a, P a → After source (ns ++ nodes a) (f a)) : After source ns (p >>= f) := by
  intro first i b k hi hns h
  obtain ⟨a, j, hpa, hfb⟩ := bind_eq_some h
  obtain ⟨hj, hle, hrow⟩ := hp i.offset i a j hi (Nat.le_refl _) hpa
  obtain ⟨hk, hle', hrow'⟩ := hf a (hP i a j hi hpa) first j b k hj (hns.append hrow) hfb
  exact ⟨hk, Nat.le_trans hle hle', hrow'⟩

/-! ### Bindings are not empty -/

/-- The parser moves past some text. -/
def Advances (source : List Char) (p : Parser α) : Prop :=
  ∀ i a j, i.Of source → p i = some (a, j) → i.offset < j.offset

theorem Advances.bind [HasNodes α] [HasNodes β] {p : Parser α} {f : α → Parser β}
    (hadvances : Advances source p) (hp : Tidy source p)
    (hf : ∀ a, After source (nodes a) (f a)) : Advances source (p >>= f) := by
  intro i b k hi h
  obtain ⟨a, j, hpa, hfb⟩ := bind_eq_some h
  obtain ⟨hj, -, hrow⟩ := hp i.offset i a j hi (Nat.le_refl _) hpa
  obtain ⟨-, hle, -⟩ := hf a i.offset j b k hj hrow hfb
  exact Nat.lt_of_lt_of_le (hadvances i a j hi hpa) hle

theorem require_eq_some {c : Bool} {i j : Input} {u : Unit} (h : require c i = some (u, j)) :
    c = true ∧ j = i := by
  unfold require at h
  split at h
  · next hc =>
    cases h
    exact ⟨hc, rfl⟩
  · cases h

theorem skipGap_le {i j : Input} {u : Unit} (hi : i.Of source) (h : skipGap i = some (u, j)) :
    i.offset ≤ j.offset :=
  (skipGap_tidy i.offset i u j hi (Nat.le_refl _) h).2.1

theorem char_advances {c : Char} : Advances source (char c) := by
  intro i u k hi h
  obtain ⟨_, j, hgap, hpeeked⟩ := bind_eq_some h
  obtain ⟨next, j', hpeek, hrequired⟩ := bind_eq_some hpeeked
  obtain ⟨rfl, rfl⟩ : j.rest.head? = next ∧ j = j' := by simpa [peek] using hpeek
  obtain ⟨_, j', hrequire, hadvanced⟩ := bind_eq_some hrequired
  obtain ⟨hhead, rfl⟩ := require_eq_some hrequire
  have hrest : j'.rest ≠ [] := by
    intro hnil
    simp [hnil] at hhead
  cases hadvanced
  exact Nat.lt_of_le_of_lt (skipGap_le hi hgap) (Input.lt_skip hrest Nat.one_ne_zero)

theorem word_advances : Advances source word := by
  intro i name k hi h
  obtain ⟨_, j, hgap, hread⟩ := bind_eq_some h
  obtain ⟨rest, j', hremaining, hmatched⟩ := bind_eq_some hread
  obtain ⟨rfl, rfl⟩ : j.rest = rest ∧ j = j' := by simpa [remaining] using hremaining
  cases hj : j.rest with
  | nil =>
    rw [hj] at hmatched
    cases hmatched
  | cons c rest =>
    rw [hj] at hmatched
    obtain ⟨_, j', hstart, hmeasured⟩ := bind_eq_some hmatched
    obtain ⟨-, rfl⟩ := require_eq_some hstart
    obtain ⟨_, j', hrequire, hadvanced⟩ := bind_eq_some hmeasured
    obtain ⟨hlength, rfl⟩ := require_eq_some hrequire
    have hrest : j'.rest ≠ [] := by simp [hj]
    cases hadvanced
    exact Nat.lt_of_le_of_lt (skipGap_le hi hgap) (Input.lt_skip hrest (by simpa using hlength))

/-- Every node that the parser gives has some text. -/
abbrev Solid (source : List Char) (p : Parser Node) : Prop :=
  Ensures source p fun n => n.start < n.stop

theorem Solid.build {kind : Kind} {p : Parser (List Node)} (hp : Advances source p) :
    Solid source (build kind p) := by
  intro i n k hi h
  obtain ⟨start, j, hhere, hread⟩ := bind_eq_some h
  obtain ⟨_, j', hgap, hoffset⟩ := bind_eq_some hhere
  obtain ⟨rfl, rfl⟩ : j'.offset = start ∧ j' = j := by simpa [offset] using hoffset
  obtain ⟨hj, -, -⟩ := skipGap_tidy i.offset i _ j' hi (Nat.le_refl _) hgap
  obtain ⟨children, l, hchildren, hbuilt⟩ := bind_eq_some hread
  cases hbuilt
  exact hp j' children k hj hchildren

theorem bindingName_solid {d : Dialect} : Solid source (bindingName d) :=
  .build (word_advances.bind word_tidy fun _ => .bind require_tidy fun _ => .pure (by simp))

namespace Rules.Sound
variable {r : Rules} (h : r.Sound source)
include h

theorem binding_solid : Solid source r.binding := by
  refine .orElse (Solid.build ?_) (.orElse (Solid.build ?_) (.orElse bindingName_solid .failure))
  · exact char_advances.bind char_tidy fun _ =>
      sparseList_tidy (.firstOf ⟨h.restPattern, h.pairPattern, h.shorthandPattern⟩)
  · exact char_advances.bind char_tidy fun _ => sparseList_tidy h.patternElement

/-! ### Variables -/

theorem expressionStatement : Tidy source r.expressionStatement :=
  .build nofun (.bind h.sequence fun _ => .bind semicolon_tidy fun _ => .pure (by simp))

theorem declarator {c : Context} : Tidy source (r.declarator c) := by
  unfold Rules.declarator
  refine .bind_here fun _ => .bind_ensured h.binding h.binding_solid fun name hname =>
    .ite_bind (.optional (.bind mark_tidy fun _ => .bind comes_tidy fun _ =>
      .alone require_tidy)) ?_
  exact .bind (typed h.typeAnnotation) fun _ => .bind (.optional h.initializer) fun _ =>
    .bind_offset fun _ => .holding rfl (fun _ => ⟨name, by simp, hname⟩) (by simp)

theorem declarators {c : Context} : Tidy source (r.declarators c) :=
  .bind h.declarator fun ⟨_, _⟩ =>
    .bind (.many (.bind mark_tidy fun _ => .alone h.declarator)) fun _ => .pure (by simp)

omit h in
theorem declarationKeyword_tidy : Tidy source declarationKeyword := by
  refine .bind word_tidy fun _ => ?_
  split
  · exact .pure (by simp)
  · exact .pure (by simp)
  · exact .pure (by simp)
  · exact .failure

omit h in
theorem declarationKeyword_ensures :
    Ensures source declarationKeyword fun kind => kind ≠ .variableDeclarator := by
  refine .bind word_tidy fun _ => ?_
  split
  · exact .pure nofun
  · exact .pure nofun
  · exact .pure nofun
  · exact .failure

theorem bindings {c : Context} {ending : Tail → Parser Unit}
    (hending : ∀ tail, Tidy source (ending tail)) : Tidy source (r.bindings c ending) :=
  .bind_here fun _ => .bind_ensured declarationKeyword_tidy declarationKeyword_ensures
    fun _ hkind => .bind h.declarators fun ⟨_, _⟩ => .bind (hending _) fun _ =>
    .bind_offset fun _ => .branch hkind (by simp)

theorem variableStatement : Tidy source r.variableStatement :=
  h.bindings fun _ => semicolon_tidy

theorem usingStatement : Tidy source r.usingStatement :=
  .construct (.bind require_tidy fun _ => .bind (.optional keyword_tidy) fun _ =>
    .bind keyword_tidy fun _ => .bind peekWord_tidy fun _ => .bind require_tidy fun _ =>
    .bind h.declarators fun ⟨_, _⟩ => .bind semicolon_tidy fun _ => .pure (by simp))

/-! ### Functions and classes -/

theorem functionDeclaration : Tidy source r.functionDeclaration := by
  unfold Rules.functionDeclaration
  refine .bind_here fun _ => .bind (.optional keyword_tidy) fun _ => .bind keyword_tidy fun _ =>
    .bind (.optional char_tidy) fun _ => .bind bindingName_tidy fun _ => .bind h.signature fun _ =>
    .bind (.optional h.block) fun body => ?_
  cases body with
  | none =>
    exact .bind require_tidy fun _ => .bind semicolon_tidy fun _ => .bind_offset fun _ =>
      .branch nofun (by simp)
  | some body => exact .bind_offset fun _ => .branch nofun (by simp)

theorem classDeclaration : Tidy source r.classDeclaration :=
  .construct (.bind (.many h.decorator) fun _ => .ite_bind (.optional keyword_tidy) <|
    .bind h.classRest fun _ => .pure (by simp))

/-! ### Declarations of types and modules -/

theorem typeAlias : Tidy source r.typeAlias :=
  .construct (.bind keyword_tidy fun _ => .bind word_tidy fun _ =>
    .bind (typed h.typeParameters) fun _ => .bind mark_tidy fun _ => .bind h.type fun _ =>
    .bind semicolon_tidy fun _ => .pure (by simp))

theorem interfaceDeclaration : Tidy source r.interfaceDeclaration :=
  .construct (.bind keyword_tidy fun _ => .bind word_tidy fun _ =>
    .bind (typed h.typeParameters) fun _ => .bind (.optional (.bind keyword_tidy fun _ =>
      .bind h.namedType fun _ =>
      .bind (.many (.bind mark_tidy fun _ => .alone h.namedType)) fun _ =>
      .pure (by simp))) fun _ => .bind (.construct h.typeMembers) fun _ => .pure (by simp))

theorem enumDeclaration : Tidy source r.enumDeclaration := by
  unfold Rules.enumDeclaration
  refine .construct (.bind (.optional keyword_tidy) fun _ => .bind keyword_tidy fun _ =>
    .bind (wordNode_tidy nofun) fun _ => .bind (.construct (.bind char_tidy fun _ =>
      .alone (denseList_tidy (.construct ?_)))) fun _ => .pure (by simp))
  exact .bind h.memberName fun _ => .bind (.optional h.initializer) fun _ => .pure (by simp)

theorem moduleDeclaration : Tidy source r.moduleDeclaration := by
  unfold Rules.moduleDeclaration
  refine .construct (.bind word_tidy fun _ => .bind require_tidy fun _ =>
    .bind (.orElse string_tidy dottedName) fun _ => .bind (.optional h.block) fun body => ?_)
  cases body with
  | none => exact .bind require_tidy fun _ => .bind semicolon_tidy fun _ => .pure (by simp)
  | some body => exact .pure (by simp)

theorem ambientDeclaration {declaration : Parser Node} (hdeclaration : Tidy source declaration) :
    Tidy source (r.ambientDeclaration declaration) :=
  .construct (.bind keyword_tidy fun _ =>
    .bind (.orElse (.bind keyword_tidy fun _ => .alone h.block) hdeclaration) fun _ =>
    .pure (by simp))

omit h in
theorem importAlias : Tidy source r.importAlias :=
  .construct (.bind keyword_tidy fun _ => .bind (.optional modifier_tidy) fun _ =>
    .bind (wordNode_tidy nofun) fun _ => .bind mark_tidy fun _ => .bind dottedName fun _ =>
    .bind semicolon_tidy fun _ => .pure (by simp))

theorem declaration : Tidy source r.declaration := by
  have htyped : Tidy source (firstOf ([r.enumDeclaration, r.typeAlias, r.interfaceDeclaration,
      r.moduleDeclaration, r.importAlias] ++
      [r.functionDeclaration, r.classDeclaration, r.variableStatement])) :=
    .firstOf ⟨h.enumDeclaration, h.typeAlias, h.interfaceDeclaration, h.moduleDeclaration,
      importAlias, h.functionDeclaration, h.classDeclaration, h.variableStatement⟩
  exact .ite (.firstOf ⟨htyped, h.ambientDeclaration htyped⟩)
    (.firstOf ⟨h.functionDeclaration, h.classDeclaration, h.variableStatement⟩)

/-! ### Control flow -/

theorem ifStatement : Tidy source r.ifStatement :=
  .construct (.bind keyword_tidy fun _ => .bind h.parenthesized fun _ => .bind h.statement fun _ =>
    .bind (.optional (.construct (.bind keyword_tidy fun _ => .bind h.statement fun _ =>
      .pure (by simp)))) fun _ => .pure (by simp))

theorem forInHead : Tidy source r.forInHead := by
  unfold Rules.forInHead
  have hranging : ∀ {left : Parser (List Node)}, Tidy source left → Tidy source (do
      let target ← left
      keyword "in" <|> keyword "of"
      return target ++ [← r.sequence .inner]) := fun hleft =>
    .bind hleft fun _ => .bind (.orElse keyword_tidy keyword_tidy) fun _ =>
      .bind h.sequence fun _ => .pure (by simp)
  refine .orElse (hranging ?declared) (hranging ?existing)
  case declared =>
    exact .bind word_tidy fun _ => .bind require_tidy fun _ => .bind h.binding fun _ =>
      .bind (typed h.typeAnnotation) fun _ => .bind (.optional h.initializer) fun _ =>
      .pure (by simp)
  case existing => exact .bind (.orElse h.pattern h.parenthesized) fun _ => .pure (by simp)

theorem forHead : Tidy source r.forHead := by
  unfold Rules.forHead
  have hempty : Tidy source (construct "empty_statement" do
      mark ";"
      return []) :=
    .construct (.bind mark_tidy fun _ => .pure (by simp))
  have hexpression : Tidy source (do
      let n ← r.sequence .inner
      mark ";"
      return n) :=
    .bind h.sequence fun _ => .bind mark_tidy fun _ => .pure (by simp)
  exact .bind (.firstOf ⟨hempty, h.bindings fun _ => mark_tidy, hexpression⟩) fun _ =>
    .bind (.orElse hempty hexpression) fun _ => .bind (.optional h.sequence) fun _ =>
    .pure (by simp)

theorem forStatement : Tidy source r.forStatement := by
  unfold Rules.forStatement
  refine .bind_here fun _ => .bind keyword_tidy fun _ => .bind (.optional keyword_tidy) fun _ =>
    .bind char_tidy fun _ => .bind_ensured (P := fun head => head.1 ≠ .variableDeclarator) ?tidy
      ?ensured fun ⟨_, _⟩ hkind => .bind h.statement fun _ => .bind_offset fun _ =>
      .branch hkind (by simp)
  case tidy =>
    exact .orElse (.bind h.forInHead fun _ => .bind char_tidy fun _ => .pure (by simp))
      (.bind h.forHead fun _ => .bind char_tidy fun _ => .pure (by simp))
  case ensured =>
    exact .orElse (.bind h.forInHead fun _ => .bind char_tidy fun _ => .pure nofun)
      (.bind h.forHead fun _ => .bind char_tidy fun _ => .pure nofun)

theorem whileStatement : Tidy source r.whileStatement :=
  .construct (.bind keyword_tidy fun _ => .bind h.parenthesized fun _ => .bind h.statement fun _ =>
    .pure (by simp))

theorem doStatement : Tidy source r.doStatement :=
  .construct (.bind keyword_tidy fun _ => .bind h.statement fun _ => .bind keyword_tidy fun _ =>
    .bind h.parenthesized fun _ => .bind (.optional semicolon_tidy) fun _ => .pure (by simp))

theorem switchCase : Tidy source r.switchCase :=
  .build nofun (.bind keyword_tidy fun _ => .bind h.sequence fun _ => .bind mark_tidy fun _ =>
    .bind (.many h.statement) fun _ => .pure (by simp))

theorem switchDefault : Tidy source r.switchDefault :=
  .build nofun (.bind keyword_tidy fun _ => .bind mark_tidy fun _ => .many h.statement)

theorem switchStatement : Tidy source r.switchStatement :=
  .construct (.bind keyword_tidy fun _ => .bind h.parenthesized fun _ =>
    .bind (.construct (.bind char_tidy fun _ =>
      .bind (.many (.orElse h.switchCase h.switchDefault)) fun _ => .bind char_tidy fun _ =>
      .pure (by simp))) fun _ => .pure (by simp))

theorem tryStatement : Tidy source r.tryStatement := by
  unfold Rules.tryStatement
  refine .construct (.bind keyword_tidy fun _ => .bind h.block fun _ =>
    .bind (.optional (.construct ?handler)) fun _ => .bind (.optional (.construct ?last)) fun _ =>
    .pure (by simp))
  case handler =>
    exact .bind keyword_tidy fun _ => .bind (.optional (.bind char_tidy fun _ =>
      .bind h.binding fun _ => .bind (typed h.typeAnnotation) fun _ => .bind char_tidy fun _ =>
      .pure (by simp))) fun _ => .bind h.block fun _ => .pure (by simp)
  case last => exact .bind keyword_tidy fun _ => .bind h.block fun _ => .pure (by simp)

theorem withStatement : Tidy source r.withStatement :=
  .construct (.bind keyword_tidy fun _ => .bind h.parenthesized fun _ => .bind h.statement fun _ =>
    .pure (by simp))

theorem returnStatement : Tidy source r.returnStatement :=
  .construct (.bind keyword_tidy fun _ => .bind remaining_tidy fun _ => .ite (.pure (by simp))
    (.bind (.optional h.sequence) fun _ => .bind semicolon_tidy fun _ => .pure (by simp)))

theorem throwStatement : Tidy source r.throwStatement :=
  .construct (.bind keyword_tidy fun _ => .bind h.sequence fun _ => .bind semicolon_tidy fun _ =>
    .pure (by simp))

omit h in
theorem jumpStatement {name : String} : Tidy source (r.jumpStatement name) :=
  .construct (.bind keyword_tidy fun _ => .bind remaining_tidy fun _ => .ite (.pure (by simp))
    (.bind (.optional bindingName_tidy) fun _ => .bind semicolon_tidy fun _ => .pure (by simp)))

omit h in
theorem debuggerStatement : Tidy source r.debuggerStatement :=
  .construct (.bind keyword_tidy fun _ => .bind semicolon_tidy fun _ => .pure (by simp))

theorem labeledStatement : Tidy source r.labeledStatement :=
  .construct (.bind bindingName_tidy fun _ => .bind mark_tidy fun _ => .bind h.statement fun _ =>
    .pure (by simp))

end Rules.Sound
end PropShear.Grammar
