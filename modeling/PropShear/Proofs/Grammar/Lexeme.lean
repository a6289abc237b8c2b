import PropShear.Grammar.Types
import PropShear.Proofs.Grammar.Tidy

/-! Gaps, words, punctuation and literals are read in order.

A node between two offsets that the parser has stood at is tiled as soon as its children lie in a
row between them (`After.holding`, `After.build`, `After.buildFrom`). -/
namespace PropShear.Grammar
open Node (Row bookmark)

variable {source : List Char} {α β : Type}

/-! ### Gaps -/

theorem Input.skip_cons (c : Char) (rest : List Char) (o n : Nat) :
    skip ⟨c :: rest, o⟩ (n + 1) = skip ⟨rest, o + c.utf8Size⟩ n := by
  simp [skip, Nat.add_assoc]

theorem Gap.after_skips {g : Gap} {o : Nat} {rest : List Char} {i : Input}
    (h : Gap.after g o rest = some i) : ∃ n, i = Input.skip ⟨rest, o⟩ n := by
  have hone : ∀ {c : Char} {rest : List Char} {o : Nat},
      (∃ n, i = Input.skip ⟨rest, o + c.utf8Size⟩ n) → ∃ n, i = Input.skip ⟨c :: rest, o⟩ n := by
    intro c rest o hrest
    obtain ⟨n, rfl⟩ := hrest
    exact ⟨n + 1, (Input.skip_cons ..).symm⟩
  have hnone : ∀ {j : Input}, some j = some i → ∃ n, i = j.skip n := by
    intro j hj
    cases hj
    exact ⟨0, (Input.skip_zero i).symm⟩
  fun_induction Gap.after g o rest with
  | case1 o rest ih => exact hone (hone (ih h))
  | case2 o rest j hj ih =>
    cases h
    exact hone (hone (ih hj))
  | case3 => exact hnone h
  | case4 o c rest _ _ hblank ih => exact hone (ih h)
  | case5 => exact hnone h
  | case6 => exact hnone h
  | case7 o c rest hend ih => exact hone (ih h)
  | case8 o c rest hend ih => exact hone (ih h)
  | case9 => exact hnone h
  | case10 o rest ih => exact hone (hone (ih h))
  | case11 o c rest _ ih => exact hone (ih h)
  | case12 => cases h

theorem skipGap_tidy : Tidy source skipGap := by
  refine .of_skip fun i _ j h => ?_
  cases h
  cases hgap : Gap.after .blank i.offset i.rest with
  | none => exact ⟨0, (Input.skip_zero i).symm⟩
  | some k => exact Gap.after_skips hgap

theorem Gap.between_skips (n : Nat) (i : Input) : ∃ m, Gap.between n i = i.skip m := by
  induction n generalizing i with
  | zero => exact ⟨0, (Input.skip_zero i).symm⟩
  | succ n ih =>
    unfold Gap.between
    split
    · exact ⟨0, (Input.skip_zero i).symm⟩
    · next j hj =>
      obtain ⟨m, rfl⟩ := Gap.after_skips hj
      split
      · split
        · next k hk =>
          obtain ⟨m', rfl⟩ := Gap.after_skips hk
          obtain ⟨m'', hn⟩ := ih ((i.skip m).skip m')
          exact ⟨m + (m' + m''), by rw [← Input.skip_skip, ← Input.skip_skip]; exact hn⟩
        · exact ⟨m, rfl⟩
      · exact ⟨m, rfl⟩

theorem skipStatementGap_tidy : Tidy source skipStatementGap := by
  refine .of_skip fun i _ j h => ?_
  cases h
  exact Gap.between_skips ..

/-! ### Single steps -/

theorem advance_tidy {n : Nat} : Tidy source (advance n) := by
  refine .of_skip fun i _ j h => ?_
  cases h
  exact ⟨n, rfl⟩

/-- A parser that stays where it is and gives no nodes is tidy. -/
theorem After.of_stays [Plain α] {p : Parser α} (h : ∀ i a j, p i = some (a, j) → j = i) :
    Tidy source p :=
  .of_skip fun i a j heq => ⟨0, by rw [h i a j heq, Input.skip_zero]⟩

theorem peek_tidy : Tidy source peek := .of_stays fun _ _ _ h => by cases h; rfl

theorem remaining_tidy : Tidy source remaining := .of_stays fun _ _ _ h => by cases h; rfl

theorem succeeds_tidy {p : Parser α} : Tidy source (succeeds p) :=
  .of_stays fun _ _ _ h => by cases h; rfl

theorem peekWord_tidy : Tidy source peekWord := .of_stays fun _ _ _ h => by cases h; rfl

theorem require_tidy {c : Bool} : Tidy source (require c) := .ite (.pure (by simp)) .failure

theorem comes_tidy {text : String} : Tidy source (comes text) := succeeds_tidy

/-! ### Nodes -/

namespace After
variable [HasNodes α] [HasNodes β] {ns : List Node} {kind : Kind} {children : List Node}
  {start stop : Nat}

theorem bind_here {f : Nat → Parser β} (hf : ∀ b, After source (ns ++ [bookmark b]) (f b)) :
    After source ns (here >>= f) := by
  have heq : (here >>= f) = (do skipGap; offset >>= f) := rfl
  rw [heq]
  exact .bind skipGap_tidy fun _ => .bind_offset fun b => (hf b).weaken (by simp)

/-- A result with one node, between two offsets that were read. -/
theorem holding {a : α} (ha : nodes a = [Node.branch kind start stop children])
    (hkind : kind = .variableDeclarator → ∃ c ∈ children, c.start < c.stop)
    (hsub : (bookmark start :: (nodes children ++ [bookmark stop])).Sublist ns) :
    After source ns (Pure.pure a : Parser α) := by
  refine .pure_of_row fun first last hrow => ?_
  have hfold := hrow.sublist hsub
  rw [nodes_eq_map_bare] at hfold
  rw [ha]
  exact hfold.fold hkind

theorem branch (hkind : kind ≠ .variableDeclarator)
    (hsub : (bookmark start :: (nodes children ++ [bookmark stop])).Sublist ns) :
    After source ns (Pure.pure (Node.branch kind start stop children) : Parser Node) :=
  holding rfl (fun h => absurd h hkind) hsub

/-- A node that is made on the way, from an offset that is used again. -/
theorem fold {p : Parser α} (kind : String) (start stop : Nat) (children : List Node)
    (hsub : (bookmark start :: (nodes children ++ [bookmark stop])).Sublist ns)
    (hp : After source [bookmark start, Node.branch (.other kind) start stop children] p) :
    After source ns p := by
  refine hp.of_row fun first last hrow => ?_
  have hfold := hrow.sublist hsub
  rw [nodes_eq_map_bare] at hfold
  exact hfold.fold_behind nofun

/-- A node that starts where one read before does. -/
theorem buildFrom_of {first : Node} {rest : List Node} (hkind : kind ≠ .variableDeclarator)
    (hrest : (first.bare :: rest).Sublist ns)
    (hchildren : (nodes children).Sublist (first.bare :: rest)) :
    After source ns (buildFrom first kind children) := by
  refine .bind_offset fun stop => .pure_of_row fun start last hrow => ?_
  have hmark := (hrow.sublist (hrest.append (List.Sublist.refl [bookmark stop]))).mark
  have hfold : Row source start (bookmark first.start :: (nodes children ++ [bookmark stop]))
      last := by
    apply hmark.sublist
    rw [Node.start_bare]
    exact (hchildren.append (List.Sublist.refl _)).cons_cons _
  rw [nodes_eq_map_bare] at hfold
  exact hfold.fold fun h => absurd h hkind

/-- A node that takes its place from the first of its children. -/
theorem buildFrom {first : Node} (hkind : kind ≠ .variableDeclarator)
    (hfirst : (nodes children).head? = some first.bare) (hsub : (nodes children).Sublist ns) :
    After source ns (buildFrom first kind children) := by
  obtain ⟨rest, hrest⟩ := List.head?_eq_some_iff.mp hfirst
  rw [hrest] at hsub
  exact buildFrom_of hkind hsub (by rw [hrest])

theorem build {p : Parser (List Node)} (hkind : kind ≠ .variableDeclarator) (hp : Tidy source p) :
    After source ns (build kind p) :=
  .alone <| .bind_here fun _ => .bind hp fun _ => .bind_offset fun _ =>
    .branch hkind (by simp)

theorem construct {name : String} {p : Parser (List Node)} (hp : Tidy source p) :
    After source ns (construct name p) :=
  build nofun hp

theorem discard {p : Parser α} (hp : Tidy source p) : After source ns (discard p) := by
  have heq : Functor.discard p = p >>= fun _ => Pure.pure () := rfl
  rw [heq]
  exact .alone (.bind hp fun _ => .pure (by simp))

end After

/-! ### Words and punctuation -/

theorem comment_tidy : Tidy source comment := by
  unfold comment
  refine .bind remaining_tidy fun _ => .bind advance_tidy fun _ => .bind_offset fun _ =>
    .bind remaining_tidy fun _ => ?_
  split
  · exact .bind advance_tidy fun _ => .bind_offset fun _ => .branch nofun (by simp)
  · exact .failure

theorem word_tidy : Tidy source word := by
  unfold word
  refine .bind skipGap_tidy fun _ => .bind remaining_tidy fun rest => ?_
  cases rest with
  | nil => exact .failure
  | cons c rest =>
    exact .bind require_tidy fun _ => .bind require_tidy fun _ =>
      .bind advance_tidy fun _ => .pure (by simp)

theorem keyword_tidy {name : String} : Tidy source (keyword name) :=
  .bind word_tidy fun _ => .alone require_tidy

theorem wordNode_tidy {kind : Kind} (hkind : kind ≠ .variableDeclarator) :
    Tidy source (wordNode kind) :=
  .build hkind (.bind (.discard word_tidy) fun _ => .pure (by simp))

theorem peekMark_tidy : Tidy source peekMark := by
  refine .bind skipGap_tidy fun _ => .bind remaining_tidy fun rest => ?_
  cases rest with
  | nil => exact .pure (by simp)
  | cons c rest => exact .pure (by simp)

theorem mark_tidy {text : String} : Tidy source (mark text) :=
  .bind skipGap_tidy fun _ => .bind remaining_tidy fun _ => .bind require_tidy fun _ =>
    .alone advance_tidy

theorem char_tidy {c : Char} : Tidy source (char c) :=
  .bind skipGap_tidy fun _ => .bind peek_tidy fun _ => .bind require_tidy fun _ =>
    .alone advance_tidy

section
variable [HasNodes α] {item : Parser α}

theorem sparseList_tidy {close : Char} (h : Tidy source item) :
    Tidy source (sparseList item close) := by
  unfold sparseList
  exact .bind h.optional fun _ =>
    .bind (.many (.bind char_tidy fun _ => .alone h.optional)) fun _ =>
    .bind char_tidy fun _ => .pure (by simp)

theorem denseList_tidy {close : Char} (h : Tidy source item) :
    Tidy source (denseList item close) := by
  unfold denseList
  exact .bind (.optional (.bind h fun _ => .bind (.many (.bind char_tidy fun _ => .alone h))
      fun _ => .bind (.optional char_tidy) fun _ => .pure (by simp))) fun _ =>
    .bind char_tidy fun _ => .pure (by simp)

end

/-! ### Literals -/

theorem number_tidy : Tidy source number :=
  .build nofun (.bind remaining_tidy fun _ => .bind require_tidy fun _ =>
    .bind advance_tidy fun _ => .pure (by simp))

theorem escapeSequence_tidy : Tidy source escapeSequence := by
  unfold escapeSequence
  refine .bind_offset fun _ => .bind remaining_tidy fun _ => ?_
  split
  · split
    · exact .bind advance_tidy fun _ => .bind_offset fun _ => .branch nofun (by simp)
    · exact .failure
  · exact .failure

theorem fragment_tidy {kind : Kind} {ends : Char → Bool} (hkind : kind ≠ .variableDeclarator) :
    Tidy source (fragment kind ends) :=
  .bind_offset fun _ => .bind remaining_tidy fun _ => .bind require_tidy fun _ =>
    .bind advance_tidy fun _ => .bind_offset fun _ =>
    .branch hkind (by simp)

theorem stringIn_tidy {quote : Char} : Tidy source (stringIn quote) :=
  .build nofun (.bind peek_tidy fun _ => .bind require_tidy fun _ =>
    .bind advance_tidy fun _ =>
    .bind (.many (.orElse (fragment_tidy nofun) escapeSequence_tidy)) fun _ =>
    .bind peek_tidy fun _ => .bind require_tidy fun _ => .bind advance_tidy fun _ =>
    .pure (by simp))

theorem string_tidy : Tidy source string := .orElse stringIn_tidy stringIn_tidy

theorem regex_tidy : Tidy source regex := by
  refine .build nofun (.bind remaining_tidy fun _ => ?_)
  split
  · refine .bind require_tidy fun _ => ?_
    split
    · exact .bind advance_tidy fun _ => .bind remaining_tidy fun _ =>
        .bind advance_tidy fun _ => .pure (by simp)
    · exact .failure
  · exact .failure

end PropShear.Grammar
