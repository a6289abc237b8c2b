import PropShear.Proofs.Edit.Bytes
import PropShear.Proofs.Text.Utf8
import PropShear.Proofs.Tree.Tiled
import PropShear.Source

/-! The place of a syntax error.

Lines and columns are found by counting the bytes before an offset (`position_eq`). In a tree whose
nodes lie inside their parents and one after another, nodes start in the order of the walk
(`Nested.pairwise_start`). So the first fault of the walk is also the first in the text, and an
error points at it (`checkTree_earliest`). -/
namespace PropShear

/-! ### Lines and columns in bytes -/

namespace Text

/-- The number of line feeds among bytes. -/
def feedBytes (bytes : List UInt8) : Nat := bytes.count 10

/-- The number of bytes since the last line feed. -/
def bytesOnLine (bytes : List UInt8) : Nat := (bytes.reverse.takeWhile (· ≠ 10)).length

/-- A line and a column after one more byte. -/
def stepByte (place : Nat × Nat) (b : UInt8) : Nat × Nat :=
  if b = 10 then (place.1 + 1, 0) else (place.1, place.2 + 1)

theorem foldl_stepByte (bytes : List UInt8) :
    bytes.foldl stepByte (0, 0) = (feedBytes bytes, bytesOnLine bytes) := by
  -- from the end, where the column is counted
  rw [← List.reverse_reverse bytes]
  induction bytes.reverse with
  | nil => rfl
  | cons b before ih =>
    rw [List.reverse_cons, List.foldl_append, ih]
    by_cases hb : b = 10
    · simp [stepByte, feedBytes, bytesOnLine, hb]
    · simp [stepByte, feedBytes, bytesOnLine, hb]

/-- Bytes without a line feed stay on the line. -/
theorem foldl_stepByte_of_not_mem {bytes : List UInt8} (h : 10 ∉ bytes) (place : Nat × Nat) :
    bytes.foldl stepByte place = (place.1, place.2 + bytes.length) := by
  induction bytes generalizing place with
  | nil => rfl
  | cons b rest ih =>
    rw [List.mem_cons, not_or] at h
    rw [List.foldl_cons, ih h.2, stepByte, if_neg (Ne.symm h.1), List.length_cons]
    simp only [Nat.add_assoc, Nat.add_comm 1]

/-- Only the line feed itself has a byte that is a line feed. -/
theorem feed_not_mem_encodeChar {c : Char} (h : c ≠ '\n') : 10 ∉ String.utf8EncodeChar c := by
  intro hmem
  rcases Utf8.mem_encodeChar hmem with hc | hhigh
  · exact h (Char.ext (UInt32.toNat_inj.mp hc.symm))
  · exact absurd hhigh (by decide)

/-- Counting characters gives the line and the column that counting bytes gives, also at an offset
inside a character. -/
theorem go_eq_foldl (source : List Char) (line column offset : Nat)
    (h : offset ≤ byteLength source) : position.go line column offset source =
      ((Utf8.encode source).take offset).foldl stepByte (line, column) := by
  induction source generalizing line column offset with
  | nil =>
    cases Nat.le_zero.mp h
    rfl
  | cons c rest ih =>
    have hencode : Utf8.encode (c :: rest) = String.utf8EncodeChar c ++ Utf8.encode rest :=
      List.flatMap_cons
    have hlength : (String.utf8EncodeChar c).length = c.utf8Size := String.length_utf8EncodeChar c
    rw [byteLength_cons] at h
    rw [position.go, hencode, List.take_append, hlength, List.foldl_append]
    by_cases hlt : offset < c.utf8Size
    · -- before the end of the character there is no line feed
      have hfree : 10 ∉ (String.utf8EncodeChar c).take offset := by
        by_cases hc : c = '\n'
        · subst hc
          have hzero : offset = 0 := Nat.lt_one_iff.mp hlt
          rw [hzero]
          exact List.not_mem_nil
        · exact fun hmem => feed_not_mem_encodeChar hc (List.mem_of_mem_take hmem)
      rw [if_pos hlt, foldl_stepByte_of_not_mem hfree, List.length_take, hlength,
        Nat.min_eq_left (Nat.le_of_lt hlt), Nat.sub_eq_zero_of_le (Nat.le_of_lt hlt)]
      rfl
    · have hle : c.utf8Size ≤ offset := Nat.le_of_not_lt hlt
      rw [if_neg hlt, List.take_of_length_le (hlength ▸ hle)]
      by_cases hc : c = '\n'
      · subst hc
        rw [if_pos rfl, ih (line + 1) 0 (offset - 1) (Nat.sub_le_iff_le_add'.mpr h)]
        rfl
      · rw [if_neg hc, ih _ _ _ (Nat.sub_le_iff_le_add'.mpr h),
          foldl_stepByte_of_not_mem (feed_not_mem_encodeChar hc), hlength]

theorem position_eq {source : List Char} {offset : Nat} (h : offset ≤ byteLength source) :
    position source offset = (feedBytes ((Utf8.encode source).take offset),
      bytesOnLine ((Utf8.encode source).take offset)) := by
  rw [position, go_eq_foldl source 0 0 offset h, foldl_stepByte]

end Text

/-! ### Nodes in order -/

namespace Node

/-- The children of a node lie inside it, one after another. -/
structure Nests (n : Node) : Prop where
  ordered : n.start ≤ n.stop
  inside : ∀ c ∈ n.children, n.start ≤ c.start ∧ c.stop ≤ n.stop
  apart : n.children.Pairwise fun a b => a.stop ≤ b.start

instance (n : Node) : Decidable n.Nests :=
  decidable_of_iff (n.start ≤ n.stop ∧ (∀ c ∈ n.children, n.start ≤ c.start ∧ c.stop ≤ n.stop) ∧
      n.children.Pairwise fun a b => a.stop ≤ b.start)
    ⟨fun ⟨ordered, inside, apart⟩ => ⟨ordered, inside, apart⟩,
      fun ⟨ordered, inside, apart⟩ => ⟨ordered, inside, apart⟩⟩

/-- Every node of the tree has its children inside it, one after another. -/
def Nested (root : Node) : Prop := ∀ n ∈ root.preorder, n.Nests

instance (root : Node) : Decidable root.Nested :=
  inferInstanceAs (Decidable (∀ n ∈ root.preorder, n.Nests))

theorem nested_iff {n : Node} : n.Nested ↔ n.Nests ∧ ∀ c ∈ n.children, c.Nested :=
  forall_mem_preorder

theorem Nested.inside {n m : Node} (h : n.Nested) (hm : m ∈ n.preorder) :
    n.start ≤ m.start ∧ m.stop ≤ n.stop := by
  rw [← map_node_places] at hm
  obtain ⟨q, hq, rfl⟩ := List.mem_map.mp hm
  induction mem_places.mp hq with
  | refl => exact ⟨Nat.le_refl _, Nat.le_refl _⟩
  | child hw hc ih =>
    have hparent := ih (mem_places.mpr hw) (List.mem_map_of_mem (mem_places.mpr hw))
    have hchild := (h _ hw.node_mem_preorder).inside _ (Place.node_mem_children hc)
    omega

mutual

/-- The walk comes to nodes in the order in which they start. -/
theorem Nested.pairwise_start (n : Node) (h : n.Nested) :
    n.preorder.Pairwise fun a b => a.start ≤ b.start := by
  match n with
  | .mk kind start stop role named missing flagged children =>
    obtain ⟨hnests, hchildren⟩ := nested_iff.mp h
    refine List.pairwise_cons.mpr ⟨?_, pairwise_startAll children hnests.apart hchildren⟩
    intro m hm
    exact (h.inside (List.mem_cons_of_mem _ hm)).1

theorem Nested.pairwise_startAll (ns : List Node)
    (hapart : ns.Pairwise fun a b => a.stop ≤ b.start) (h : ∀ n ∈ ns, n.Nested) :
    (preorderAll ns).Pairwise fun a b => a.start ≤ b.start := by
  match ns with
  | [] => exact .nil
  | n :: rest =>
    rw [List.pairwise_cons] at hapart
    rw [List.forall_mem_cons] at h
    rw [preorderAll, List.pairwise_append]
    refine ⟨pairwise_start n h.1, pairwise_startAll rest hapart.2 h.2, ?_⟩
    intro a ha b hb
    obtain ⟨m, hm, hb⟩ := mem_preorderAll.mp hb
    -- the one ends before the subtree ends that the other comes after
    have hordered := (h.1 a ha).ordered
    have hleft := (h.1.inside ha).2
    have hbetween := hapart.1 m hm
    have hright := ((h.2 m hm).inside hb).1
    omega

end

/-! ### Faults -/

/-- The first node in pre-order that marks an error. -/
def IsFirstFault (root bad : Node) : Prop :=
  ∃ before after, root.preorder = before ++ bad :: after ∧ bad.isFault = true ∧
    ∀ n ∈ before, n.isFault = false

theorem fault_eq (root : Node) : root.fault = (root.preorder.find? isFault).getD root := by
  rw [fault, map_node_places]

theorem isFirstFault_fault {root n : Node} (hn : n ∈ root.preorder) (hfault : n.isFault = true) :
    root.IsFirstFault root.fault := by
  rw [fault_eq]
  cases hfind : root.preorder.find? isFault with
  | none => exact absurd hfault (List.find?_eq_none.mp hfind n hn)
  | some bad =>
    obtain ⟨hbad, before, after, hsplit, hbefore⟩ := List.find?_eq_some_iff_append.mp hfind
    refine ⟨before, after, hsplit, hbad, fun m hm => ?_⟩
    exact Bool.not_eq_true' _ ▸ hbefore m hm

theorem fault_of_none {root : Node} (h : ∀ n ∈ root.preorder, n.isFault = false) :
    root.fault = root := by
  rw [fault_eq, List.find?_eq_none.mpr]
  · rfl
  · intro n hn
    rw [h n hn]
    exact Bool.false_ne_true

/-- No fault starts before the first one. -/
theorem IsFirstFault.start_le {root bad n : Node} (h : root.IsFirstFault bad)
    (hnested : root.Nested) (hn : n ∈ root.preorder) (hfault : n.isFault = true) :
    bad.start ≤ n.start := by
  obtain ⟨before, after, hsplit, -, hbefore⟩ := h
  have hpairwise := hnested.pairwise_start
  rw [hsplit, List.pairwise_append] at hpairwise
  rw [hsplit, List.mem_append] at hn
  rcases hn with hn | hn
  · rw [hbefore n hn] at hfault
    cases hfault
  · rcases List.mem_cons.mp hn with rfl | hn
    · exact Nat.le_refl _
    · exact (List.pairwise_cons.mp hpairwise.2.1).1 n hn

theorem fault_mem_preorder (root : Node) : root.fault ∈ root.preorder := by
  rw [fault_eq]
  cases hfind : root.preorder.find? isFault with
  | none => exact mem_preorder_self root
  | some bad => exact List.mem_of_find?_eq_some hfind

mutual

/-- A tree has an error if a node of it is flagged or marks an error itself. -/
theorem hasError_iff (n : Node) : n.hasError = true ↔
    ∃ m ∈ n.preorder, m.flagged = true ∨ m.isFault = true := by
  match n with
  | .mk kind start stop role named missing flagged children =>
    simp only [hasError, preorder, List.mem_cons, exists_eq_or_imp, Bool.or_eq_true,
      anyHasError_iff children]
    refine or_congr_left ?_
    rw [isFault, Bool.or_eq_true, ← or_assoc]
    rfl

theorem anyHasError_iff (ns : List Node) : anyHasError ns = true ↔
    ∃ m ∈ preorderAll ns, m.flagged = true ∨ m.isFault = true := by
  match ns with
  | [] => simp [anyHasError, preorderAll]
  | n :: rest =>
    rw [anyHasError, preorderAll, Bool.or_eq_true, hasError_iff n, anyHasError_iff rest]
    simp only [List.mem_append, or_and_right, exists_or]

end

/-- The tree is one of a text: it lies inside the text, and each node lies inside its parent, after
the siblings before it. -/
structure LiesIn (source : List Char) (root : Node) : Prop where
  nested : root.Nested
  stop_le : root.stop ≤ Text.byteLength source

instance (source : List Char) (root : Node) : Decidable (root.LiesIn source) :=
  decidable_of_iff (root.Nested ∧ root.stop ≤ Text.byteLength source)
    ⟨fun ⟨nested, stop_le⟩ => ⟨nested, stop_le⟩, fun ⟨nested, stop_le⟩ => ⟨nested, stop_le⟩⟩

theorem LiesIn.start_le {source : List Char} {root n : Node} (h : root.LiesIn source)
    (hn : n ∈ root.preorder) : n.start ≤ Text.byteLength source :=
  calc n.start ≤ n.stop := (h.nested n hn).ordered
    _ ≤ root.stop := (h.nested.inside hn).2
    _ ≤ Text.byteLength source := h.stop_le

end Node

/-! ### Reports -/

/-- The error names the line and the column of the first byte of a node, both counted from one, and
tells whether the node is missing. -/
structure SyntaxError.PointsAt (e : SyntaxError) (source : List Char) (bad : Node) : Prop where
  line : e.line = 1 + Text.feedBytes ((Text.Utf8.encode source).take bad.start)
  column : e.column = 1 + Text.bytesOnLine ((Text.Utf8.encode source).take bad.start)
  missing : e.detail = "missing " ++ bad.kind.name ↔ bad.missing = true
  unexpected : e.detail = "unexpected token" ↔ bad.missing = false

theorem SyntaxError.ne_missing (name : String) : "unexpected token" ≠ "missing " ++ name := by
  intro h
  have hfirst := congrArg (fun s => s.toList.head?) h
  rw [String.toList_append] at hfirst
  cases hfirst

theorem Node.syntaxError?_eq_none {root : Node} {source : List Char} {path : String} :
    root.syntaxError? source path = none ↔ root.hasError = false := by
  rw [Node.syntaxError?]
  cases root.hasError with
  | true => simp
  | false => simp

theorem Node.pointsAt_fault {root : Node} {source : List Char} {path : String} {e : SyntaxError}
    (htree : root.LiesIn source) (h : root.syntaxError? source path = some e) :
    e.path = path ∧ e.PointsAt source root.fault := by
  have hposition := Text.position_eq (htree.start_le root.fault_mem_preorder)
  rw [Node.syntaxError?] at h
  split at h
  · simp only [hposition, Option.some.injEq] at h
    subst h
    refine ⟨rfl, Nat.add_comm .., Nat.add_comm .., ?_, ?_⟩
    · cases root.fault.missing with
      | true => simp
      | false => simp [SyntaxError.ne_missing]
    · cases root.fault.missing with
      | true => simp [(SyntaxError.ne_missing _).symm]
      | false => simp
  · cases h

/-- A tree of a text is refused exactly if it has an error, that is, if a node of it is flagged,
erroneous or missing. If there are erroneous or missing nodes, the error points at the first of them
in pre-order, and none of them starts before it; else it points at the root. -/
theorem checkTree_earliest {root : Node} {source : List Char} (htree : root.LiesIn source)
    (path : String) :
    ((∃ e, checkTree root path source = .error e) ↔ root.hasError = true) ∧
      (checkTree root path source = .ok root ↔ root.hasError = false) ∧
      (root.hasError = true ↔
        ∃ n ∈ root.preorder, n.flagged = true ∨ n.isFault = true) ∧
      ∀ e, checkTree root path source = .error e → ∃ bad, e.path = path ∧ e.PointsAt source bad ∧
        ((∃ n ∈ root.preorder, n.isFault = true) → root.IsFirstFault bad ∧
          ∀ n ∈ root.preorder, n.isFault = true → bad.start ≤ n.start) ∧
        ((∀ n ∈ root.preorder, n.isFault = false) → bad = root) := by
  have herror (e : SyntaxError) : checkTree root path source = .error e ↔
      root.syntaxError? source path = some e := by
    rw [checkTree]
    cases root.syntaxError? source path with
    | none => simp
    | some e' => simp
  have hok : checkTree root path source = .ok root ↔ root.syntaxError? source path = none := by
    rw [checkTree]
    cases root.syntaxError? source path with
    | none => simp
    | some e' => simp
  refine ⟨?_, hok.trans Node.syntaxError?_eq_none, root.hasError_iff, ?_⟩
  · simp only [herror, ← Option.isSome_iff_exists, Option.isSome_iff_ne_none, ne_eq,
      Node.syntaxError?_eq_none, Bool.not_eq_false]
  · intro e he
    obtain ⟨hpath, hpoints⟩ := Node.pointsAt_fault htree ((herror e).mp he)
    refine ⟨root.fault, hpath, hpoints, ?_, Node.fault_of_none⟩
    rintro ⟨n, hn, hfault⟩
    have hfirst := Node.isFirstFault_fault hn hfault
    exact ⟨hfirst, fun m hm => hfirst.start_le htree.nested hm⟩

def brokenText : String := "é;\nπ( ]"

/-- A tree of `brokenText`; the call on its second line lacks a bracket, and an error follows. -/
def broken : Node :=
  .branch .program 0 9 [
    .branch .expressionStatement 0 3 [.branch .identifier 0 2 [], .token .semicolon 2 3],
    .branch .expressionStatement 4 7 [
      .branch .callExpression 4 7 [
        .branch .identifier 4 6 [],
        .branch .arguments 6 7 [
          .token (.other "(") 6 7,
          .mk (.other ")") 7 7 none false true false []]]],
    .branch .error 8 9 [.token (.other "]") 8 9]]

/-- The bracket is missing in front of the error, at the fourth byte of the second line. -/
theorem checkTree_earliest_bracket : broken.LiesIn brokenText.toList ∧
    checkTree broken "a.jsx" brokenText.toList = .error ⟨"a.jsx", 2, 4, "missing )"⟩ ∧
    ∃ bad, (SyntaxError.mk "a.jsx" 2 4 "missing )").PointsAt brokenText.toList bad ∧
      broken.IsFirstFault bad ∧ ∀ n ∈ broken.preorder, n.isFault = true → bad.start ≤ n.start := by
  have htree : broken.LiesIn brokenText.toList := by decide
  have hrun : checkTree broken "a.jsx" brokenText.toList =
      .error ⟨"a.jsx", 2, 4, "missing )"⟩ := by
    rw [checkTree, Node.syntaxError?, Node.fault_eq]
    rfl
  obtain ⟨-, -, -, hpoints⟩ := checkTree_earliest htree "a.jsx"
  obtain ⟨bad, -, hbad, hfirst, -⟩ := hpoints _ hrun
  exact ⟨htree, hrun, bad, hbad, hfirst (by decide)⟩

end PropShear
