import Mathlib.Data.List.Forall2
import PropShear.Proofs.Splice

/-! Every match is found and erased.

The nodes of the three shapes and the removals of a tree correspond to each other one by one, in
pre-order (`forall₂_erases`). Each removal holds the node that asks for it, so that no byte of such
a node is left after stripping (`gone_of_isMatch`). -/
namespace PropShear.Removal

variable {source : List Char} {modules : List Specifier} {root : Node}

/-- The node imports a tracked module, requires one, or assigns a checked property. -/
def isMatch (source : List Char) (modules : List Specifier) (n : Node) : Bool :=
  (Shape.importOf? source modules n matches .ok (some _)) ||
    (Shape.requireOf? source modules n matches .ok (some _)) ||
    (Shape.assigns source n matches .ok true)

/-- The removal is the one that a node asks for, and holds the whole node. -/
structure Erases (source : List Char) (modules : List Specifier) (n : Node) (r : Removal) : Prop where
  asks : Asks source modules n r.reason r.module?
  starts : r.start ≤ n.start
  stops : n.stop ≤ r.stop

theorem isMatch_iff {n : Node} :
    isMatch source modules n = true ↔ ∃ reason module?, Asks source modules n reason module? := by
  unfold isMatch
  rw [Bool.or_eq_true, Bool.or_eq_true]
  constructor
  · rintro ((h | h) | h)
    · split at h
      · next m hm => exact ⟨_, _, .imported hm⟩
      · cases h
    · split at h
      · next m hm => exact ⟨_, _, .required hm⟩
      · cases h
    · split at h
      · next ha => exact ⟨_, _, .assigned ha⟩
      · cases h
  · rintro ⟨reason, module?, hasks⟩
    cases hasks with
    | imported h => exact .inl (.inl (by rw [h]))
    | required h => exact .inl (.inr (by rw [h]))
    | assigned h => exact .inr (by rw [h])

/-- One place: its node is a match and asks for a removal that erases it, or it is none and asks for
nothing. -/
theorem at?_erases (wf : root.WellFormed source) {p : Place} (hp : p ∈ root.places) :
    (∃ r, at? source modules p = .ok (some r) ∧ isMatch source modules p.node = true ∧
      Erases source modules p.node r) ∨
    at? source modules p = .ok none ∧ isMatch source modules p.node = false := by
  rw [Node.mem_places] at hp
  rcases at?_cases wf hp with ⟨r, hat, hasks, hspans⟩ | ⟨hat, hnone⟩
  · obtain ⟨hstart, hstop, -⟩ := hspans.bounds wf.tiled hp
    exact .inl ⟨r, hat, isMatch_iff.mpr ⟨_, _, hasks⟩, hasks, hstart, hstop⟩
  · refine .inr ⟨hat, Bool.eq_false_iff.mpr fun hmatch => ?_⟩
    obtain ⟨reason, module?, hasks⟩ := isMatch_iff.mp hmatch
    exact hnone reason module? hasks

/-- A run over places: the removals found are those of the matches, in order. -/
theorem forall₂_erases {places : List Place} {found : List (Option Removal)}
    (wf : root.WellFormed source) (hplaces : ∀ p ∈ places, p ∈ root.places)
    (h : places.map (at? source modules) = found.map .ok) :
    List.Forall₂ (Erases source modules)
      ((places.map Place.node).filter (isMatch source modules)) (found.filterMap id) := by
  induction places generalizing found with
  | nil =>
    rw [List.map_nil, eq_comm, List.map_eq_nil_iff] at h
    subst h
    exact .nil
  | cons p rest ih =>
    cases found with
    | nil => cases h
    | cons r? found =>
      rw [List.map_cons, List.map_cons, List.cons.injEq] at h
      rw [List.forall_mem_cons] at hplaces
      have hrest := ih hplaces.2 h.2
      rcases at?_erases wf hplaces.1 with ⟨r, hat, hmatch, herases⟩ | ⟨hat, hmatch⟩
      · rw [hat] at h
        cases h.1
        rw [List.map_cons, List.filter_cons_of_pos hmatch]
        exact .cons herases hrest
      · rw [hat] at h
        cases h.1
        rw [List.map_cons, List.filter_cons_of_neg (by simp [hmatch])]
        exact hrest

/-- Every byte of a match goes. -/
theorem gone_of_isMatch {removals : List Removal} (wf : root.WellFormed source)
    (hfind : find source modules root = .ok removals) {n : Node} (hn : n ∈ root.preorder)
    (hmatch : isMatch source modules n = true) {b : Nat} (hstart : n.start ≤ b)
    (hstop : b < n.stop) : gone removals b = true := by
  rw [← Node.map_node_places] at hn
  obtain ⟨p, hp, rfl⟩ := List.mem_map.mp hn
  rcases at?_erases wf hp with ⟨r, hat, -, herases⟩ | ⟨-, hno⟩
  · have hr := (mem_find hfind).mpr ⟨p, Node.mem_places.mp hp, hat⟩
    refine List.any_eq_true.mpr ⟨r, hr, ?_⟩
    rw [holds, Bool.and_eq_true, decide_eq_true_eq, decide_eq_true_eq]
    have := herases.starts
    have := herases.stops
    omega
  · rw [hmatch] at hno
    cases hno

/-- Detection is complete and every match is erased: the removals of a tree are those of its
matches, one for each in pre-order, and no byte of a match is left of a file that is stripped. -/
theorem find_complete (s : Stripper) (root : Node) (code : String)
    (wf : root.WellFormed code.toList) :
    ∃ removals, find code.toList s.settings.modules root = .ok removals ∧
      List.Forall₂ (Erases code.toList s.settings.modules)
        (root.preorder.filter (isMatch code.toList s.settings.modules)) removals ∧
      ∀ path : String, root.hasError = false → s.filter.isEligible path.toList = true →
        ∃ stripped, s.stripWith (checkTree root) code path = .ok (some stripped) ∧
          Text.Utf8.encode stripped.code.toList =
            Text.survivors (gone removals) (Text.Utf8.encode code.toList) ∧
          ∀ n ∈ root.preorder, isMatch code.toList s.settings.modules n = true →
            ∀ b, n.start ≤ b → b < n.stop → gone removals b = true := by
  obtain ⟨found, hfind, hmap⟩ := find_ok s.settings.modules wf
  refine ⟨_, hfind, ?_, fun path hclean heligible => ?_⟩
  · rw [← Node.map_node_places]
    exact forall₂_erases wf (fun p hp => hp) hmap
  · obtain ⟨stripped, hstrip, -, hcode, -⟩ := s.stripTree_ok code path wf.tiled hfind
    exact ⟨stripped, s.stripWith_checkTree hclean heligible hstrip, hcode,
      fun n hn hmatch b hstart hstop => gone_of_isMatch wf hfind hn hmatch hstart hstop⟩

theorem find_complete_sample :
    ∃ removals, find Node.sampleText.toList ["π"] Node.sample = .ok removals ∧
      List.Forall₂ (Erases Node.sampleText.toList ["π"])
        (Node.sample.preorder.filter (isMatch Node.sampleText.toList ["π"])) removals ∧
      removals.length = 1 := by
  obtain ⟨removals, hfind, hall, -⟩ := find_complete ⟨"strip", ⟨[], [], ["π"], true⟩, ⟨[], []⟩⟩
    Node.sample Node.sampleText Node.sample_wellFormed
  have hremovals : Except.ok [⟨.required, some "π", 6, 25⟩] = Except.ok removals := hfind
  cases hremovals
  exact ⟨_, hfind, hall, rfl⟩

end PropShear.Removal
